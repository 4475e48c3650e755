import Harvest.Number.Binary64

/-!
The shortest decimal text of a number. Of all decimals that round to the number those with the
fewest digits are taken, and of them the nearest to it, the even one at a tie. The text is
positional from `10 ^ (-5)` up to below `10 ^ 16` and always has a point there; elsewhere it has an
exponent. Output formats differ in whether a positive exponent has a sign.
-/
namespace Harvest.Number

/-- `a * 10 ^ k` against `m * 2 ^ e`, the powers moved to the side where they are whole. -/
def scaleTen (a : Nat) (k : Int) (m : Nat) (e : Int) : Nat × Nat :=
  (a * Nat.pow 10 k.toNat * Nat.pow 2 (-e).toNat,
    m * Nat.pow 2 e.toNat * Nat.pow 10 (-k).toNat)

/-- Whether `a * 10 ^ k` rounds to the number `m * 2 ^ e`. The halfway points to its neighbours
belong to it when `m` is even. Below a power of two the neighbour is only half as far. -/
def roundsTo (a : Nat) (k : Int) (m : Nat) (e : Int) : Bool :=
  let lowGap := if m = Nat.pow 2 52 ∧ -1074 < e then 1 else 2
  let (x, low) := scaleTen a k (4 * m - lowGap) (e - 2)
  let (y, high) := scaleTen a k (4 * m + 2) (e - 2)
  if m % 2 = 0 then low ≤ x && y ≤ high else low < x && y < high

/-- The decimal place of the last of `n` significant digits of `m * 2 ^ e`. The magnitude is
estimated from the number of bits and moved up while the number does not fit. -/
def lastPlace (n m : Nat) (e : Int) : Int :=
  let bits : Int := (m.log2 : Int) + e
  let guess : Int := bits * 30103 / 100000 - n
  let fits (k : Int) : Bool := let (x, y) := scaleTen (Nat.pow 10 n) k m e; y < x
  if fits guess then guess else if fits (guess + 1) then guess + 1
  else if fits (guess + 2) then guess + 2 else guess + 3

/-- The decimal with `n` significant digits that rounds to the number and is nearest to it. -/
def withDigits (n m : Nat) (e : Int) : Option (Nat × Int) :=
  let k := lastPlace n m e
  let (unit, value) := scaleTen 1 k m e
  let low := value / unit
  let rest := value % unit
  let high := low + 1
  let lowFits := roundsTo low k m e
  let highFits := roundsTo high k m e
  if lowFits && highFits then
    if 2 * rest < unit then some (low, k)
    else if unit < 2 * rest then some (high, k)
    else some (if low % 2 = 0 then low else high, k)
  else if lowFits then some (low, k)
  else if highFits then some (high, k)
  else none

/-- The first length from `n` on at which a decimal is found; seventeen digits always suffice. -/
def shortestFrom (m : Nat) (e : Int) : Nat → Nat → Nat × Int
  | 0, n => (withDigits n m e).getD (0, 0)
  | more + 1, n =>
    match withDigits n m e with
    | some found => found
    | none => shortestFrom m e more (n + 1)

/-- Zeros at the end of a coefficient go into the exponent. -/
def dropZeros : Nat → Nat → Int → Nat × Int
  | 0, a, k => (a, k)
  | more + 1, a, k => if a % 10 = 0 then dropZeros more (a / 10) (k + 1) else (a, k)

def shortest (m : Nat) (e : Int) : Nat × Int :=
  let (a, k) := shortestFrom m e 16 1
  dropZeros 20 a k

def exponentText (plus : Bool) (e : Int) : List Char :=
  (if plus && 0 < e then ['+'] else []) ++ (toString e).toList

/-- Digits with the decimal exponent of the last one, as text. -/
def placeDigits (plus : Bool) (digits : List Char) (k : Int) : List Char :=
  let point : Int := digits.length + k
  if 0 ≤ k ∧ point ≤ 16 then digits ++ List.replicate k.toNat '0' ++ ['.', '0']
  else if 0 < point ∧ point ≤ 16 then
    digits.take point.toNat ++ '.' :: digits.drop point.toNat
  else if -5 < point ∧ point ≤ 0 then
    '0' :: '.' :: List.replicate (-point).toNat '0' ++ digits
  else
    let tail := match digits with
      | first :: second :: more => first :: '.' :: second :: more
      | few => few
    tail ++ 'e' :: exponentText plus (point - 1)

/-- The text of a number: always with a point or an exponent. `plus` gives positive exponents a
sign. -/
def Binary64.text (plus : Bool) (x : Binary64) : String :=
  let sign := if x.negative then ['-'] else []
  if x.mantissa = 0 then String.ofList (sign ++ ['0', '.', '0'])
  else
    let (a, k) := shortest x.mantissa x.exponent
    String.ofList (sign ++ placeDigits plus (Nat.toDigits 10 a) k)

end Harvest.Number
