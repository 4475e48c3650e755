import Harvest.Yaml.Lexeme.Block
import Harvest.Yaml.Lexeme.Tag

/-!
The tokens of a YAML text. Whether a word is a key shows only at the colon behind it, and with the
first key of a block a mapping begins. So every place where a key may begin is noted among the
tokens, and in the end it is replaced by what it has turned out to be. A key stands in one line and
is at most 1024 characters long.
-/
namespace Harvest.Yaml

/-- How a scalar is written, as far as its meaning depends on it. -/
inductive Writing where
  | plain
  | literal
  | other
deriving DecidableEq, Repr

inductive Token where
  | directive (d : Directive)
  | documentStart
  | documentEnd
  | blockSequence
  | blockMapping
  | blockEnd
  | openSequence
  | closeSequence
  | openMapping
  | closeMapping
  | comma
  | dash
  | key
  | value
  | reference (name : String)
  | anchor (name : String)
  | tag (handle : String) (octets : List Nat)
  | scalar (text : String) (writing : Writing)
  | streamEnd
deriving DecidableEq, Repr

/-- A token, or a place where a key may begin. -/
inductive Item where
  | token (t : Token)
  | place (number : Nat)

/-- A place that may turn out to be that of a key. -/
structure Candidate where
  number : Nat
  index : Nat
  line : Nat
  column : Nat
  /-- Nothing but a key can stand there. -/
  required : Bool

/-- How far a text has been read. -/
structure Scanning where
  position : Position
  /-- What has been read, latest first. -/
  items : List Item := []
  /-- The places that are keys, with whether a mapping begins there. -/
  keys : List (Nat × Bool) := []
  places : Nat := 0
  /-- The columns of the open blocks, innermost first. -/
  indents : List Nat := []
  candidate : Option Candidate := none
  /-- The candidates outside of each open bracket, innermost first. -/
  outer : List (Option Candidate) := []
  keyAllowed : Bool := true

namespace Scanning

def longestKey : Nat := 1024

/-- Whether the text stands in brackets. -/
def flow (s : Scanning) : Bool := !s.outer.isEmpty

def emit (t : Token) (s : Scanning) : Scanning := { s with items := .token t :: s.items }

/-- The least column of what belongs to the innermost block. -/
def least (s : Scanning) : Nat :=
  match s.indents with
  | [] => 0
  | i :: _ => i + 1

/-- Ends the blocks to the right of a column, or all of them. -/
def closeBlocks (column : Option Nat) (s : Scanning) : Scanning :=
  if s.flow then s
  else
    let ends (i : Nat) : Bool := column.all (· < i)
    { s with
      items := List.replicate (s.indents.takeWhile ends).length (.token .blockEnd) ++ s.items,
      indents := s.indents.dropWhile ends }

/-- Whether a block begins at a column. -/
def opensBlock (column : Nat) (s : Scanning) : Bool :=
  !s.flow && s.indents.head?.all (· < column)

/-- Begins a block at the present column, if there is none yet. -/
def openBlock (t : Token) (s : Scanning) : Scanning :=
  let column := s.position.column
  if s.opensBlock column then { s.emit t with indents := column :: s.indents } else s

/-- The candidate has not become a key. -/
def dropCandidate (s : Scanning) : Option Scanning :=
  if s.candidate.any (·.required) then none else some { s with candidate := none }

/-- Notes that a key may begin at the present position. -/
def noteCandidate (s : Scanning) : Option Scanning :=
  if s.keyAllowed then do
    let p := s.position
    let required := !s.flow && s.indents.head? == some p.column
    let candidate :=
      { number := s.places, index := p.index, line := p.line, column := p.column, required }
    let s ← s.dropCandidate
    some { s with
      candidate := some candidate, items := .place s.places :: s.items, places := s.places + 1 }
  else some s

/-- Whether a candidate can no longer become a key. -/
def isStale (p : Position) (c : Candidate) : Bool :=
  c.line < p.line || c.index + longestKey < p.index

def dropStale (s : Scanning) : Option Scanning :=
  let stale (c : Option Candidate) : Bool := c.any (isStale s.position)
  if (s.candidate :: s.outer).any fun c => stale c && c.any (·.required) then none
  else
    let keep (c : Option Candidate) : Option Candidate := if stale c then none else c
    some { s with candidate := keep s.candidate, outer := s.outer.map keep }

/-- Passes blanks, remarks and line ends. Outside of brackets a new line may begin with a key, but
no tab may stand before it. -/
def skipSpace : Nat → Scanning → Scanning
  | 0, s => s
  | limit + 1, s =>
    let tabs := s.flow || !s.keyAllowed
    let p := (s.position.skipWhile fun c => c == ' ' || (tabs && c == '\t')).skipRemark
    if p.rest.head?.any isBreak then
      skipSpace limit { s with position := p.next, keyAllowed := s.keyAllowed || !s.flow }
    else { s with position := p }

/-- Passes everything up to the next token; a byte order mark may stand before the first one. -/
def toToken (s : Scanning) : Scanning :=
  let p := s.position
  let p := if p.index == 0 && p.rest.head? == some '\uFEFF' then p.next else p
  skipSpace (p.rest.length + 1) { s with position := p }

/-- A token of `size` characters that are its indicator. -/
def pass (size : Nat) (t : Token) (s : Scanning) : Scanning :=
  { s.emit t with position := s.position.skip size }

/-- Before directives and marks of documents all blocks end. -/
def endDocument (s : Scanning) : Option Scanning := do
  let s ← (s.closeBlocks none).dropCandidate
  some { s with keyAllowed := false }

def openBracket (t : Token) (s : Scanning) : Option Scanning := do
  let s ← s.noteCandidate
  some ({ s with
    outer := s.candidate :: s.outer, candidate := none, keyAllowed := true }.pass 1 t)

def closeBracket (t : Token) (s : Scanning) : Option Scanning := do
  let s ← s.dropCandidate
  let s := match s.outer with
    | [] => s
    | candidate :: outer => { s with candidate, outer }
  some ({ s with keyAllowed := false }.pass 1 t)

def separate (s : Scanning) : Option Scanning := do
  let s ← s.dropCandidate
  some ({ s with keyAllowed := true }.pass 1 .comma)

def item (s : Scanning) : Option Scanning :=
  if !s.flow && !s.keyAllowed then none
  else do
    let s ← (s.openBlock .blockSequence).dropCandidate
    some ({ s with keyAllowed := true }.pass 1 .dash)

def markedKey (s : Scanning) : Option Scanning :=
  if !s.flow && !s.keyAllowed then none
  else do
    let s ← (s.openBlock .blockMapping).dropCandidate
    some ({ s with keyAllowed := !s.flow }.pass 1 .key)

/-- A colon makes a key of the candidate, or else it follows a marked or missing key. -/
def colon (s : Scanning) : Option Scanning :=
  match s.candidate with
  | some c =>
    let opens := s.opensBlock c.column
    some ({ s with
      keys := (c.number, opens) :: s.keys,
      indents := if opens then c.column :: s.indents else s.indents,
      candidate := none, keyAllowed := false }.pass 1 .value)
  | none =>
    if !s.flow && !s.keyAllowed then none
    else some ({ s.openBlock .blockMapping with keyAllowed := !s.flow }.pass 1 .value)

/-- A token that a key may begin with. -/
def word (read : Scanning → Option (Token × Position)) (s : Scanning) : Option Scanning := do
  let s ← s.noteCandidate
  let (t, position) ← read s
  some { s.emit t with position, keyAllowed := false }

def reference (s : Scanning) : Option Scanning :=
  s.word fun s => (readAnchor s.position).map fun (name, p) => (.reference name, p)

def anchor (s : Scanning) : Option Scanning :=
  s.word fun s => (readAnchor s.position).map fun (name, p) => (.anchor name, p)

def tag (s : Scanning) : Option Scanning :=
  s.word fun s =>
    (readTag s.flow s.position).map fun ((handle, octets), p) => (.tag handle octets, p)

def quoted (quote : Char) (s : Scanning) : Option Scanning :=
  s.word fun s =>
    (readQuoted quote s.position).map fun (text, p) => (.scalar (String.ofList text) .other, p)

/-- After a plain scalar that a line end follows, a key may begin. -/
def plain (s : Scanning) : Option Scanning := do
  let s ← s.noteCandidate
  let (text, position, broken) ← readPlain s.flow s.least s.position
  some { s.emit (.scalar (String.ofList text) .plain) with position, keyAllowed := broken }

def block (literal : Bool) (s : Scanning) : Option Scanning := do
  let s ← s.dropCandidate
  let (text, position) ← readBlock literal s.least s.position
  let writing : Writing := if literal then .literal else .other
  some { s.emit (.scalar (String.ofList text) writing) with position, keyAllowed := true }

def directive (s : Scanning) : Option Scanning := do
  let s ← s.endDocument
  let (d, position) ← readDirective s.position
  some { s.emit (.directive d) with position }

def documentMark (t : Token) (s : Scanning) : Option Scanning := do
  let s ← s.endDocument
  some (s.pass 3 t)

/-- Characters with a meaning of their own, which no plain scalar begins with. -/
def isReserved (c : Char) : Bool :=
  c == '-' || c == '?' || c == ':' || isIndicator c || isBlank c

def beginsPlain (flow : Bool) (c : Char) (following : Option Char) : Bool :=
  !isReserved c || (c == '-' && !following.any isBlank) ||
    (!flow && (c == '?' || c == ':') && !endsWord following)

/-- Reads the token that begins at the present position with the character `c`. -/
def readToken (c : Char) (following : Option Char) (s : Scanning) : Option Scanning :=
  let alone : Bool := endsWord following
  if s.position.column == 0 && c == '%' then s.directive
  else if s.position.atDocumentMark '-' then s.documentMark .documentStart
  else if s.position.atDocumentMark '.' then s.documentMark .documentEnd
  else if c == '[' then s.openBracket .openSequence
  else if c == '\x7b' then s.openBracket .openMapping
  else if c == ']' then s.closeBracket .closeSequence
  else if c == '\x7d' then s.closeBracket .closeMapping
  else if c == ',' then s.separate
  else if c == '-' && alone then s.item
  else if c == '?' && (s.flow || alone) then s.markedKey
  else if c == ':' && (s.flow || alone) then s.colon
  else if c == '*' then s.reference
  else if c == '&' then s.anchor
  else if c == '!' then s.tag
  else if c == '|' && !s.flow then s.block true
  else if c == '>' && !s.flow then s.block false
  else if c == '\'' || c == '"' then s.quoted c
  else if beginsPlain s.flow c following then s.plain
  else none

/-- Reads up to the end of the text. -/
def run : Nat → Scanning → Option Scanning
  | 0, _ => none
  | limit + 1, s => do
    let s ← s.toToken.dropStale
    match s.position.rest with
    | [] => do
      let s ← s.endDocument
      some (s.emit .streamEnd)
    | c :: rest => do
      let s ← (s.closeBlocks (some s.position.column)).readToken c rest.head?
      run limit s

/-- What has been read, with keys in their places. -/
def tokens (s : Scanning) : List Token :=
  s.items.reverse.flatMap fun
    | .token t => [t]
    | .place number =>
      match s.keys.lookup number with
      | none => []
      | some opens => if opens then [.blockMapping, .key] else [.key]

end Scanning

/-- The tokens of a text, if it has any fault neither in its characters nor in its words. -/
def Token.ofText? (s : String) : Option (List Token) := do
  let position ← Position.ofText? s
  let s ← Scanning.run (position.rest.length + 1) { position }
  some s.tokens

end Harvest.Yaml
