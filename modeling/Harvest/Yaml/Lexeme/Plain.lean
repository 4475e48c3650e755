import Harvest.Yaml.Position

/-!
Plain scalars, and how the lines of a scalar are joined. Each is read at a position and gives its
text and the position behind it.
-/
namespace Harvest.Yaml

/-- Line ends between two lines that belong together: one alone is a space, more than one are all
but the first. Line separators are kept. -/
def joinLines : List Char → List Char
  | ['\n'] => [' ']
  | '\n' :: more => more
  | ends => ends

/-- What blanks and line ends between two words stand for. Blanks at the end or the start of a line
stand for nothing. -/
def folded (gap : List Char) : List Char :=
  if gap.any isBreak then joinLines (gap.filter isBreak) else gap

def isFlowIndicator (c : Char) : Bool := [',', '[', ']', '\x7b', '\x7d'].contains c

/-- A word of a plain scalar and what follows it. A colon before a blank ends it, and inside
brackets so does an indicator of these; a colon right before one is an error. -/
def plainWord (flow : Bool) : List Char → Option (List Char × List Char)
  | [] => some ([], [])
  | c :: rest =>
    if isGap c then some ([], c :: rest)
    else if flow && c == ':' && rest.head?.any fun d => isFlowIndicator d || d == '?' then none
    else if (c == ':' && endsWord rest.head?) || (flow && isFlowIndicator c) then
      some ([], c :: rest)
    else (plainWord flow rest).map fun (word, rest) => (c :: word, rest)

/-- Whether a tab stands before column `least` of a line that begins in the gap; `column` is that of
the next character, if it stands in such a line. -/
def tabBefore (least : Nat) : Option Nat → List Char → Bool
  | _, [] => false
  | column, c :: rest =>
    if isBreak c then tabBefore least (some 0) rest
    else (c == '\t' && column.any (· < least)) || tabBefore least (column.map (· + 1)) rest

/-- The words of a plain scalar behind a gap; the lines of a block are indented by `least` at least.
The last part says whether the scalar has a line end behind it. -/
def plainFrom (flow : Bool) (least : Nat) :
    Nat → List Char → Position → Option (List Char × Position × Bool)
  | 0, _, _ => none
  | limit + 1, gap, p =>
    if p.atAnyDocumentMark || p.rest.head? == some '#' then some ([], p, gap.any isBreak)
    else do
      let (word, rest) ← plainWord flow p.rest
      let (text, gap) := if word.isEmpty then ([], gap) else (folded gap ++ word, [])
      let p := p.upTo rest
      if !rest.head?.any isGap then some (text, p, gap.any isBreak)
      else
        let (gap, p) := p.take isGap
        if tabBefore least none gap then none
        else if !flow && p.column < least then some (text, p, gap.any isBreak)
        else do
          let (more, p, broken) ← plainFrom flow least limit gap p
          some (text ++ more, p, broken)

def readPlain (flow : Bool) (least : Nat) (p : Position) : Option (List Char × Position × Bool) :=
  plainFrom flow least (p.rest.length + 1) [] p

end Harvest.Yaml
