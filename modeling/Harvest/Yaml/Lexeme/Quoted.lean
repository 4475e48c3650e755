import Harvest.Yaml.Lexeme.Plain
import Harvest.Yaml.Scalar

/-!
Scalars between quotes. Between double quotes characters may be escaped, line ends among them.
-/
namespace Harvest.Yaml

def hexValue? (digits : List Char) : Option Nat :=
  digits.foldlM (fun n c => (digitIn 16 c).map fun d => 16 * n + d) 0

/-- The character of a number of `width` digits, and what follows. -/
def numbered (width : Nat) (s : List Char) : Option (Char × List Char) :=
  if s.length < width then none
  else do
    let n ← hexValue? (s.take width)
    if n.isValidChar then some (Char.ofNat n, s.drop width) else none

/-- Letters that are read in escapes but not written. -/
def readEscapes : List (Char × Char) := [(' ', ' '), ('/', '/'), ('\t', '\t'), ('_', '\u00A0')]

/-- The character that an escape with a letter stands for, and what follows. -/
def unescape (letter : Char) (rest : List Char) : Option (Char × List Char) :=
  if letter == 'x' then numbered 2 rest
  else if letter == 'u' then numbered 4 rest
  else if letter == 'U' then numbered 8 rest
  else
    match letterEscapes.find? fun entry => entry.2 == letter with
    | some (code, _) => some (Char.ofNat code, rest)
    | none => (readEscapes.lookup letter).map fun c => (c, rest)

/-- A word between single quotes, where two quotes stand for one. -/
def quotedWord : List Char → List Char × List Char
  | [] => ([], [])
  | '\'' :: '\'' :: rest =>
    let (word, rest) := quotedWord rest
    ('\'' :: word, rest)
  | c :: rest =>
    if c == '\'' || isGap c then ([], c :: rest)
    else
      let (word, rest) := quotedWord rest
      (c :: word, rest)

/-- A word between double quotes, with whether an escaped line end has ended it. -/
def escapedWord : Nat → List Char → Option (List Char × Bool × List Char)
  | 0, _ => none
  | _ + 1, [] => some ([], false, [])
  | limit + 1, c :: rest =>
    if c == '"' || isGap c then some ([], false, c :: rest)
    else if c != '\\' then
      (escapedWord limit rest).map fun (word, cut, rest) => (c :: word, cut, rest)
    else
      match rest with
      | [] => none
      | letter :: rest =>
        if isBreak letter then some ([], true, rest)
        else do
          let (c, rest) ← unescape letter rest
          let (word, cut, rest) ← escapedWord limit rest
          some (c :: word, cut, rest)

def wordIn (quote : Char) (s : List Char) : Option (List Char × Bool × List Char) :=
  if quote == '"' then escapedWord (s.length + 1) s
  else
    let (word, rest) := quotedWord s
    some (word, false, rest)

/-- A quoted scalar behind its first quote. No line of it is the mark of a document. -/
def quotedUpTo (quote : Char) : Nat → Position → Option (List Char × Position)
  | 0, _ => none
  | limit + 1, p =>
    if p.atAnyDocumentMark || p.rest.isEmpty then none
    else do
      let (word, cut, rest) ← wordIn quote p.rest
      let p := p.upTo rest
      if rest.head? == some quote then some (word, p.next)
      else
        let (gap, p) := p.take isGap
        let (more, p) ← quotedUpTo quote limit p
        some (word ++ (if cut then gap.filter isBreak else folded gap) ++ more, p)

def readQuoted (quote : Char) (p : Position) : Option (List Char × Position) :=
  quotedUpTo quote (p.rest.length + 1) p.next

end Harvest.Yaml
