/-!
Texts out of octets. A run of octets that cannot be part of UTF-8 becomes one replacement
character: each run is as long as it could still have been the start of a character.
-/
namespace Harvest.Text

/-- How many octets a character starting with `b` has, with the least and the greatest value its
second octet may take. -/
def octetLead (b : Nat) : Option (Nat × Nat × Nat) :=
  if 0xC2 ≤ b && b ≤ 0xDF then some (2, 0x80, 0xBF)
  else if b == 0xE0 then some (3, 0xA0, 0xBF)
  else if b == 0xED then some (3, 0x80, 0x9F)
  else if 0xE1 ≤ b && b ≤ 0xEF then some (3, 0x80, 0xBF)
  else if b == 0xF0 then some (4, 0x90, 0xBF)
  else if 0xF1 ≤ b && b ≤ 0xF3 then some (4, 0x80, 0xBF)
  else if b == 0xF4 then some (4, 0x80, 0x8F)
  else none

/-- Where the reading of a character stands: `owed` octets are missing, the next one lies between
`low` and `high`, and `value` is made of the bits read. -/
structure Reading where
  owed : Nat
  low : Nat
  high : Nat
  value : Nat
deriving Repr, DecidableEq

def replacement : Char := '\uFFFD'

/-- Octet `b` where a character may start: characters finished by it and what is left open. -/
def startOctet (b : Nat) : List Char × Option Reading :=
  if b < 0x80 then ([Char.ofNat b], none)
  else
    match octetLead b with
    | none => ([replacement], none)
    | some (size, low, high) =>
      ([], some { owed := size - 1, low, high, value := b % Nat.pow 2 (7 - size) })

def stepOctet (open? : Option Reading) (b : Nat) : List Char × Option Reading :=
  match open? with
  | none => startOctet b
  | some r =>
    if r.low ≤ b && b ≤ r.high then
      let value := r.value * 64 + b % 64
      if r.owed ≤ 1 then ([Char.ofNat value], none)
      else ([], some { owed := r.owed - 1, low := 0x80, high := 0xBF, value })
    else
      let (chars, next) := startOctet b
      (replacement :: chars, next)

def ofOctetsFrom (open? : Option Reading) : List Nat → List Char
  | [] => if open?.isSome then [replacement] else []
  | b :: rest =>
    let (chars, next) := stepOctet open? b
    chars ++ ofOctetsFrom next rest

/-- The text of a list of octets, whatever they are. -/
def ofOctets (octets : List Nat) : String := String.ofList (ofOctetsFrom none octets)

end Harvest.Text
