import Harvest.Xml.Letter

/-!
Character references and line ends. In a text a carriage return with or without a line feed is read
as one line feed; in an attribute value every blank is read as a space. A character that is written
as a reference is meant as it is, and is left alone.
-/
namespace Harvest.Xml

/-- A character of a raw text, written as itself or meant by a reference. -/
inductive Piece where
  | written (c : Char)
  | meant (c : Char)
deriving DecidableEq, Repr

def hexDigitValue (c : Char) : Option Nat :=
  if '0' ≤ c && c ≤ '9' then some (c.toNat - 48)
  else if 'a' ≤ c && c ≤ 'f' then some (c.toNat - 87)
  else if 'A' ≤ c && c ≤ 'F' then some (c.toNat - 55)
  else none

/-- The number of a list of digits in a base; there is at least one digit, and all are below the
base. -/
def numberIn (base : Nat) (digits : List Char) : Option Nat :=
  if digits.isEmpty then none
  else
    digits.foldlM (fun n c => (hexDigitValue c).bind fun d => if d < base then some (base * n + d)
      else none) 0

/-- The character of a code number of 32 bits. Numbers that are no character stand for the
replacement character. -/
def characterOf (n : Nat) : Option Char :=
  if n < Nat.pow 2 32 then
    let c := if n.isValidChar then Char.ofNat n else '\uFFFD'
    if isAllowed c then some c else none
  else none

/-- What is referred to by the text between the ampersand and the semicolon. -/
def referent : List Char → Option Char
  | '#' :: 'x' :: digits => (numberIn 16 digits).bind characterOf
  | '#' :: digits => (numberIn 10 digits).bind characterOf
  | ['a', 'm', 'p'] => some '&'
  | ['l', 't'] => some '<'
  | ['g', 't'] => some '>'
  | ['q', 'u', 'o', 't'] => some '"'
  | ['a', 'p', 'o', 's'] => some '\''
  | _ => none

/-- The pieces of a raw text. Inside a reference, `name` is what was read of it, last character
first. -/
def piecesFrom (name : Option (List Char)) : List Char → Option (List Piece)
  | [] => if name.isSome then none else some []
  | c :: rest =>
    match name with
    | some read =>
      if c == ';' then do
        let m ← referent read.reverse
        let more ← piecesFrom none rest
        some (.meant m :: more)
      else piecesFrom (some (c :: read)) rest
    | none =>
      if c == '&' then piecesFrom (some []) rest
      else (piecesFrom none rest).map (.written c :: ·)

def pieces (raw : List Char) : Option (List Piece) := piecesFrom none raw

/-- The characters of a text. A carriage return stays only where a reference follows it, or where it
ends the text behind a reference; `behind` says that a reference came just before. -/
def joinLines : Bool → List Piece → List Char
  | _, [] => []
  | _, .meant c :: rest => c :: joinLines true rest
  | behind, [.written c] => if c == '\r' && !behind then ['\n'] else [c]
  | _, .written c :: .meant d :: rest => c :: d :: joinLines true rest
  | _, .written c :: .written d :: rest =>
    if c == '\r' then
      if d == '\n' then '\n' :: joinLines false rest
      else '\n' :: joinLines false (.written d :: rest)
    else c :: joinLines false (.written d :: rest)

def textOfRaw (raw : List Char) : Option (List Char) := (pieces raw).map (joinLines false)

/-- A literal section has no references. -/
def textOfLiteral (raw : List Char) : List Char := joinLines false (raw.map Piece.written)

def joinBlanks : List Piece → List Char
  | [] => []
  | .meant c :: rest => c :: joinBlanks rest
  | .written c :: rest =>
    if c == '\r' && rest.head? == some (.written '\n') then joinBlanks rest
    else (if isSpace c then ' ' else c) :: joinBlanks rest

def valueOfRaw (raw : List Char) : Option String :=
  (pieces raw).map fun ps => String.ofList (joinBlanks ps)

end Harvest.Xml
