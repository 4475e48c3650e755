import Harvest.Yaml.Letter

/-!
Positions in a YAML text. Every line of the text ends in one character: a line feed, or one of the
two separators that are kept as they are.
-/
namespace Harvest.Yaml

/-- What is left of a text, with the characters passed, in all and in this line. -/
structure Position where
  rest : List Char
  index : Nat := 0
  line : Nat := 0
  column : Nat := 0

/-- Characters that may stand in a YAML text. -/
def isReadable (c : Char) : Bool :=
  let n := c.toNat
  c == '\t' || c == '\n' || c == '\r' || (0x20 ≤ n && n ≤ 0x7E) || n == 0x85 ||
    (0xA0 ≤ n && n != 0xFFFE && n != 0xFFFF)

/-- A line end of two characters, a carriage return and a next line become line feeds. -/
def unifyLineEnds : List Char → List Char
  | '\r' :: '\n' :: rest => '\n' :: unifyLineEnds rest
  | c :: rest => (if c == '\r' || c == '\u0085' then '\n' else c) :: unifyLineEnds rest
  | [] => []

def isGap (c : Char) : Bool := isBlank c || isBreak c

namespace Position

/-- The start of a text, if all its characters may stand there. -/
def ofText? (s : String) : Option Position :=
  if s.toList.all isReadable then some { rest := unifyLineEnds s.toList } else none

def next (p : Position) : Position :=
  match p.rest with
  | [] => p
  | c :: rest =>
    if isBreak c then { rest, index := p.index + 1, line := p.line + 1, column := 0 }
    else { p with rest, index := p.index + 1, column := p.column + 1 }

def skip : Nat → Position → Position
  | 0, p => p
  | n + 1, p => skip n p.next

def skipWhile (test : Char → Bool) (p : Position) : Position :=
  p.skip (p.rest.takeWhile test).length

/-- The characters that pass a test, and the position behind them. -/
def take (test : Char → Bool) (p : Position) : List Char × Position :=
  (p.rest.takeWhile test, p.skipWhile test)

/-- The position where only `rest` is left. -/
def upTo (rest : List Char) (p : Position) : Position := p.skip (p.rest.length - rest.length)

/-- Whether a line of three equal characters, or with more behind a blank, begins here. -/
def atDocumentMark (mark : Char) (p : Position) : Bool :=
  p.column == 0 && p.rest.take 3 == [mark, mark, mark] && endsWord (p.rest.drop 3).head?

def atAnyDocumentMark (p : Position) : Bool := p.atDocumentMark '-' || p.atDocumentMark '.'

/-- Passes a remark, which goes up to the end of its line. -/
def skipRemark (p : Position) : Position :=
  if p.rest.head? == some '#' then p.skipWhile fun c => !isBreak c else p

/-- Passes the end of a line, with blanks and a remark before it. -/
def finishLine? (p : Position) : Option Position :=
  let p := (p.skipWhile isBlank).skipRemark
  match p.rest with
  | [] => some p
  | c :: _ => if isBreak c then some p.next else none

end Position
end Harvest.Yaml
