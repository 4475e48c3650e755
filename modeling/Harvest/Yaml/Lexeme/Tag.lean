import Harvest.Yaml.Lexeme.Quoted

/-!
Anchors, tags and directives. A tag is kept in octets, for its escapes need not make up a text.
-/
namespace Harvest.Yaml

/-- Characters of names. -/
def isWord (c : Char) : Bool := c.isAlphanum || c == '_' || c == '-'

/-- The name of an anchor or a reference, behind its indicator. -/
def readAnchor (p : Position) : Option (String × Position) :=
  let (name, p) := p.next.take isWord
  let ended : Bool := endsWord p.rest.head? ||
    p.rest.head?.any fun c => ['?', ':', ',', ']', '\x7d', '%', '@', '\x60'].contains c
  if name.isEmpty || !ended then none else some (String.ofList name, p)

/-- Characters of a tag; the `wide` ones may not stand in a tag without brackets. -/
def isTagPart (wide : Bool) (c : Char) : Bool :=
  isWord c || ";/?:@&=+$.!~*'()".toList.contains c || (wide && [',', '[', ']'].contains c)

/-- How many octets follow the first octet of a character. -/
def octetsBehind? (b : Nat) : Option Nat :=
  if b < 0x80 then some 0
  else if 0xC0 ≤ b && b < 0xE0 then some 1
  else if 0xE0 ≤ b && b < 0xF0 then some 2
  else if 0xF0 ≤ b && b < 0xF8 then some 3
  else none

/-- The octets of a tag and what follows it. An octet may be written as a percent sign and two
digits; `owed` of these must follow. -/
def tagOctets (wide : Bool) (owed : Nat) : List Char → Option (List Nat × List Char)
  | '%' :: a :: b :: rest => do
    let n ← hexValue? [a, b]
    let owed ← if owed == 0 then octetsBehind? n
      else if 0x80 ≤ n && n < 0xC0 then some (owed - 1)
      else none
    let (more, rest) ← tagOctets wide owed rest
    some (n :: more, rest)
  | c :: rest =>
    if c == '%' || owed != 0 then none
    else if isTagPart wide c then
      (tagOctets wide 0 rest).map fun (more, rest) => (c.toNat :: more, rest)
    else some ([], c :: rest)
  | [] => if owed == 0 then some ([], []) else none

def readTagPart (wide : Bool) (p : Position) : Option (List Nat × Position) := do
  let (octets, rest) ← tagOctets wide 0 p.rest
  some (octets, p.upTo rest)

/-- The handle of a tag: an exclamation mark, which may be followed by a name with another one. -/
def readHandle? (p : Position) : Option (List Char × Position) :=
  let (name, q) := p.next.take isWord
  if p.rest.head? == some '!' && q.rest.head? == some '!' then
    some ('!' :: (name ++ ['!']), q.next)
  else none

/-- A tag: its handle, which is empty if the tag is written in full, and the rest of it. -/
def readTag (flow : Bool) (p : Position) : Option ((String × List Nat) × Position) := do
  let (tag, p) ←
    match p.next.rest with
    | '<' :: _ => do
      let (octets, p) ← readTagPart true p.next.next
      if octets.isEmpty || p.rest.head? != some '>' then none else some (("", octets), p.next)
    | _ =>
      match readHandle? p with
      | some (handle, p) => do
        let (octets, p) ← readTagPart false p
        if octets.isEmpty then none else some ((String.ofList handle, octets), p)
      | none => do
        let (octets, p) ← readTagPart false p.next
        some (if octets.isEmpty then ("", ['!'.toNat]) else ("!", octets), p)
  if endsWord p.rest.head? || (flow && p.rest.head? == some ',') then some (tag, p) else none

/-- What a directive lays down: the version of YAML, or what the handle of a tag stands for. -/
inductive Directive where
  | version (major minor : Nat)
  | handle (name : String) (octets : List Nat)
deriving DecidableEq, Repr

/-- A number of at most nine digits. -/
def readNumber? (p : Position) : Option (Nat × Position) :=
  let (digits, p) := p.take Char.isDigit
  if digits.isEmpty || 9 < digits.length then none
  else some (digits.foldl (fun n c => 10 * n + (c.toNat - 48)) 0, p)

def readVersion (p : Position) : Option (Directive × Position) := do
  let (major, p) ← readNumber? p
  if p.rest.head? != some '.' then none
  else do
    let (minor, p) ← readNumber? p.next
    some (.version major minor, p)

def readHandleMeaning (p : Position) : Option (Directive × Position) := do
  let (handle, p) ←
    match readHandle? p with
    | some found => some found
    | none => if p.rest.head? == some '!' then some (['!'], p.next) else none
  if !p.rest.head?.any isBlank then none
  else do
    let (octets, p) ← readTagPart true (p.skipWhile isBlank)
    if octets.isEmpty || !endsWord p.rest.head? then none
    else some (.handle (String.ofList handle) octets, p)

/-- A directive, behind its percent sign, with the end of its line. -/
def readDirective (p : Position) : Option (Directive × Position) := do
  let (name, p) := p.next.take isWord
  if !endsWord p.rest.head? then none
  else do
    let p := p.skipWhile isBlank
    let (directive, p) ←
      if name == "YAML".toList then readVersion p
      else if name == "TAG".toList then readHandleMeaning p
      else none
    let p ← p.finishLine?
    some (directive, p)

end Harvest.Yaml
