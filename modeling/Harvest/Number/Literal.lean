import Harvest.Number.Binary64

/-!
Decimal literals: an optional sign, digits with at most one point among or beside them, and an
optional exponent. There is at least one digit before the exponent, and at least one in it. The
value is the number nearest to what is written; a literal too large for every finite number has
none.
-/
namespace Harvest.Number

/-- The value `coefficient * 10 ^ exponent`, with its sign. -/
structure Decimal where
  negative : Bool
  coefficient : Nat
  exponent : Int
deriving DecidableEq, Repr

def digitsValue (digits : List Char) : Nat :=
  digits.foldl (fun n c => 10 * n + (c.toNat - 48)) 0

def splitSign : List Char → Bool × List Char
  | '-' :: rest => (true, rest)
  | '+' :: rest => (false, rest)
  | rest => (false, rest)

/-- The exponent part: nothing, or `e` with a signed number. -/
def readExponent : List Char → Option Int
  | [] => some 0
  | c :: rest =>
    if c == 'e' || c == 'E' then
      let (negative, digits) := splitSign rest
      if digits.isEmpty || !digits.all Char.isDigit then none
      else some (if negative then -(digitsValue digits : Int) else digitsValue digits)
    else none

def Decimal.read (s : List Char) : Option Decimal :=
  let (negative, body) := splitSign s
  let whole := body.takeWhile Char.isDigit
  let rest := body.dropWhile Char.isDigit
  let (fraction, rest) := match rest with
    | '.' :: rest => (rest.takeWhile Char.isDigit, rest.dropWhile Char.isDigit)
    | rest => ([], rest)
  if whole.isEmpty && fraction.isEmpty then none
  else
    (readExponent rest).map fun e =>
      { negative, coefficient := digitsValue (whole ++ fraction),
        exponent := e - fraction.length }

/-- How many digits a number has; zero has none. -/
def digitCount (n : Nat) : Nat := if n = 0 then 0 else (Nat.toDigits 10 n).length

/-- The nearest finite number. Values beyond `10 ^ 310` are too large for one, and values below
`10 ^ (-400)` are nearest to zero, so that no power of ten beyond these is ever computed. -/
def Decimal.nearest (d : Decimal) : Option Binary64 :=
  let magnitude : Int := digitCount d.coefficient + d.exponent
  if d.coefficient = 0 || magnitude < -400 then some (Binary64.zero d.negative)
  else if 310 < magnitude then none
  else if 0 ≤ d.exponent then
    Binary64.nearest d.negative (d.coefficient * Nat.pow 10 d.exponent.toNat) 1
  else Binary64.nearest d.negative d.coefficient (Nat.pow 10 (-d.exponent).toNat)

/-- The finite number a text is the literal of. -/
def readNumber (s : List Char) : Option Binary64 := (Decimal.read s).bind Decimal.nearest

end Harvest.Number
