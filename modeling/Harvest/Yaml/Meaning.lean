import Harvest.Number.Literal

/-!
What plain scalars mean: null, a truth value, a number, or else their text.
-/
namespace Harvest.Yaml

/-- Zeros before other digits do not make a number. -/
def isPaddedNumber (s : List Char) : Bool :=
  let digits := match s with
    | '-' :: digits => digits
    | '+' :: digits => digits
    | digits => digits
  match digits with
  | '0' :: d :: more => (d :: more).all Char.isDigit
  | _ => false

def digitIn (base : Nat) (c : Char) : Option Nat :=
  let value :=
    if c.isDigit then some (c.toNat - 48)
    else if 'a' ≤ c && c ≤ 'f' then some (c.toNat - 87)
    else if 'A' ≤ c && c ≤ 'F' then some (c.toNat - 55)
    else none
  value.filter (· < base)

def wholeIn (base : Nat) (digits : List Char) : Option Nat :=
  if digits.isEmpty then none
  else digits.foldlM (fun n c => (digitIn base c).map fun d => base * n + d) 0

/-- A whole number with a base mark, of at most 128 bits with its sign. -/
def isBasedNumber (s : List Char) : Bool :=
  let (bound, body) := match s with
    | '-' :: body => (Nat.pow 2 127, body)
    | '+' :: body => (Nat.pow 2 128 - 1, body)
    | body => (Nat.pow 2 128 - 1, body)
  let digits := match body with
    | '0' :: 'x' :: digits => wholeIn 16 digits
    | '0' :: 'o' :: digits => wholeIn 8 digits
    | '0' :: 'b' :: digits => wholeIn 2 digits
    | _ => none
  digits.any (· ≤ bound)

/-- A finite number in decimal notation, with at most one sign. -/
def isDecimalNumber (s : List Char) : Bool :=
  let single := match s with
    | '+' :: '+' :: _ => false
    | '+' :: '-' :: _ => false
    | _ => true
  single && (Number.readNumber s).isSome

/-- Texts for what is not a finite number. -/
def infinities : List String :=
  [".inf", ".Inf", ".INF", "+.inf", "+.Inf", "+.INF", "-.inf", "-.Inf", "-.INF",
   ".nan", ".NaN", ".NAN"]

def isNull (s : String) : Bool := ["", "~", "null", "Null", "NULL"].contains s

def truth? (s : String) : Option Bool :=
  if ["true", "True", "TRUE"].contains s then some true
  else if ["false", "False", "FALSE"].contains s then some false
  else none

/-- Whether a plain scalar would be read as something else than its text. -/
def isAmbiguous (s : String) : Bool :=
  isNull s || (truth? s).isSome || infinities.contains s || isPaddedNumber s.toList ||
    isBasedNumber s.toList || isDecimalNumber s.toList

end Harvest.Yaml
