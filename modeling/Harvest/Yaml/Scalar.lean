import Harvest.Yaml.Letter
import Harvest.Yaml.Meaning

/-!
Texts as scalars. A text is written plainly where that can be read as nothing but this text. It is
quoted if it would be read as a number, a truth value or null, or if it holds indicators; a text of
several lines becomes a literal block. Where quotes or blocks could not keep it, it is written with
escapes.
-/
namespace Harvest.Yaml

/-- Characters that no plain scalar begins with. -/
def isIndicator (c : Char) : Bool :=
  ['#', ',', '[', ']', '\x7b', '\x7d', '&', '*', '!', '|', '>', '\'', '"', '%', '@',
    '\x60'].contains c

/-- An indicator inside a text: a colon that ends a word, or a number sign that begins one. -/
def holdsIndicator : Option Char → List Char → Bool
  | _, [] => false
  | before, c :: rest =>
    (c == ':' && endsWord rest.head?) || (c == '#' && endsWord before) ||
      holdsIndicator (some c) rest

def beginsWithIndicator : List Char → Bool
  | [] => false
  | c :: rest =>
    isIndicator c || ((c == '?' || c == ':' || c == '-') && endsWord rest.head?) ||
      ['-', '-', '-'].isPrefixOf (c :: rest) || ['.', '.', '.'].isPrefixOf (c :: rest)

def hasIndicators : List Char → Bool
  | [] => false
  | c :: rest => beginsWithIndicator (c :: rest) || holdsIndicator (some c) rest

/-- Whether a character of one class is followed by one of another. -/
def holdsPair (first second : Char → Bool) : List Char → Bool
  | c :: d :: rest => (first c && second d) || holdsPair first second (d :: rest)
  | _ => false

def isSpace (c : Char) : Bool := c == ' '

/-- Texts that can only be written with escapes: a line would end in a blank, or a character could
not be shown. -/
def needsEscapes (s : List Char) : Bool :=
  s.any (fun c => !isPrintable c) || holdsPair isSpace isBreak s

def plainAllowed (s : List Char) : Bool :=
  !(s.any isBreak || needsEscapes s || hasIndicators s ||
    s.head?.any isSpace || s.getLast?.any isSpace)

def quotesAllowed (s : List Char) : Bool := !(needsEscapes s || holdsPair isBreak isSpace s)

def blockAllowed (s : List Char) : Bool := !(needsEscapes s || s.getLast?.any isSpace)

inductive Style where
  | plain
  | quoted
  | escaped
  | literal
deriving DecidableEq, Repr

def styleOf (s : String) : Style :=
  let cs := s.toList
  if cs.contains '\n' then if blockAllowed cs then .literal else .escaped
  else if !isAmbiguous s && plainAllowed cs then .plain
  else if quotesAllowed cs then .quoted
  else .escaped

/-- The start of a line at some indentation. -/
def margin (indent : Nat) : List Char := List.replicate indent ' '

/-- The inside of a quoted scalar. A line feed is written twice where a run of line ends begins with
it; `broken` says that the last character was a line end. -/
def quotedFrom (indent : Nat) (broken : Bool) : List Char → List Char
  | [] => if broken then margin indent else []
  | c :: rest =>
    if isBreak c then
      (if c == '\n' && !broken then ['\n', '\n'] else [c]) ++ quotedFrom indent true rest
    else
      (if broken then margin indent else []) ++
        (if c == '\'' then ['\'', '\''] else [c]) ++ quotedFrom indent false rest

def hexDigits : Nat → Nat → List Char
  | 0, _ => []
  | width + 1, n =>
    let d := n % 16
    hexDigits width (n / 16) ++ [if d < 10 then Char.ofNat (48 + d) else Char.ofNat (55 + d)]

/-- Escapes that have a letter. -/
def letterEscapes : List (Nat × Char) :=
  [(0x00, '0'), (0x07, 'a'), (0x08, 'b'), (0x09, 't'), (0x0A, 'n'), (0x0B, 'v'), (0x0C, 'f'),
   (0x0D, 'r'), (0x1B, 'e'), (0x22, '"'), (0x5C, '\\'), (0x85, 'N'), (0x2028, 'L'), (0x2029, 'P')]

def escape (c : Char) : List Char :=
  if isPrintable c && !isBreak c && c != '"' && c != '\\' then [c]
  else
    match letterEscapes.lookup c.toNat with
    | some letter => ['\\', letter]
    | none =>
      if c.toNat ≤ 0xFF then '\\' :: 'x' :: hexDigits 2 c.toNat
      else if c.toNat ≤ 0xFFFF then '\\' :: 'u' :: hexDigits 4 c.toNat
      else '\\' :: 'U' :: hexDigits 8 c.toNat

/-- The lines of a literal block; `fresh` says that a line begins here. -/
def literalFrom (indent : Nat) (fresh : Bool) : List Char → List Char
  | [] => []
  | c :: rest =>
    if isBreak c then c :: literalFrom indent true rest
    else (if fresh then margin indent else []) ++ c :: literalFrom indent false rest

/-- How a literal block keeps its end: a last line end is implied, none is marked by a minus, and
further ones by a plus. -/
def chomping (s : List Char) : List Char :=
  match s.reverse with
  | [] => ['-']
  | [c] => if isBreak c then ['+'] else ['-']
  | c :: d :: _ => if isBreak c then if isBreak d then ['+'] else [] else ['-']

def literal (indent : Nat) (s : List Char) : List Char :=
  let hint := if s.head?.any fun c => isSpace c || isBreak c then ['2'] else []
  '|' :: (hint ++ chomping s ++ '\n' :: literalFrom indent true s)

/-- A text as a scalar, with the end of its last line. Further lines are indented. A literal block
may have brought its last line to an end itself. -/
def scalar (indent : Nat) (s : String) : List Char :=
  match styleOf s with
  | .plain => s.toList ++ ['\n']
  | .quoted => '\'' :: (quotedFrom indent false s.toList ++ ['\'', '\n'])
  | .escaped => '"' :: (s.toList.flatMap escape ++ ['"', '\n'])
  | .literal =>
    literal indent s.toList ++ if s.toList.getLast?.any isBreak then [] else ['\n']

end Harvest.Yaml
