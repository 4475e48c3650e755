/-!
Finite binary floating-point numbers with 53 bits of precision, and the rounding of a quotient to
the nearest of them. A number has one form: its mantissa fills all bits unless the exponent is the
least one. Zero keeps its sign.
-/
namespace Harvest.Number

/-- The number `mantissa * 2 ^ exponent`, with its sign. -/
structure Binary64 where
  negative : Bool
  mantissa : Nat
  exponent : Int
  mantissa_lt : mantissa < Nat.pow 2 53
  exponent_ge : -1074 ≤ exponent
  exponent_le : exponent ≤ 971
  filled : Nat.pow 2 52 ≤ mantissa ∨ exponent = -1074
deriving DecidableEq, Repr

namespace Binary64

def zero (negative : Bool) : Binary64 :=
  ⟨negative, 0, -1074, by decide, by decide, by decide, by decide⟩

/-- The number of these parts, unless they are out of range. -/
def ofParts (negative : Bool) (mantissa : Nat) (exponent : Int) : Option Binary64 :=
  if h : mantissa < Nat.pow 2 53 ∧ -1074 ≤ exponent ∧ exponent ≤ 971 ∧
      (Nat.pow 2 52 ≤ mantissa ∨ exponent = -1074) then
    some ⟨negative, mantissa, exponent, h.1, h.2.1, h.2.2.1, h.2.2.2⟩
  else none

/-- Equality of values: the two zeros are equal. -/
def sameValue (a b : Binary64) : Bool :=
  a.mantissa == b.mantissa && a.exponent == b.exponent &&
    (a.negative == b.negative || a.mantissa == 0)

end Binary64

/-- The quotient rounded to the nearest integer, ties to the even one. -/
def roundDiv (num den : Nat) : Nat :=
  let q := num / den
  let r := num % den
  if 2 * r < den then q
  else if den < 2 * r then q + 1
  else q + q % 2

/-- `num / den` divided by `2 ^ e`, again as a quotient. -/
def scaleDown (num den : Nat) (e : Int) : Nat × Nat :=
  if 0 ≤ e then (num, den * Nat.pow 2 e.toNat) else (num * Nat.pow 2 (-e).toNat, den)

/-- The exponent at which the quotient has an integer part of 53 bits, or the least exponent. -/
def exponentFor (num den : Nat) : Int :=
  let guess : Int := (num.log2 : Int) - (den.log2 : Int) - 52
  let (n, d) := scaleDown num den guess
  max (-1074) (if n < d * Nat.pow 2 52 then guess - 1 else guess)

/-- The number nearest to a quotient of positive integers, or `none` if it is too large for any. -/
def Binary64.nearest (negative : Bool) (num den : Nat) : Option Binary64 :=
  let e := exponentFor num den
  let (n, d) := scaleDown num den e
  let m := roundDiv n d
  if m = Nat.pow 2 53 then Binary64.ofParts negative (Nat.pow 2 52) (e + 1)
  else Binary64.ofParts negative m e

end Harvest.Number
