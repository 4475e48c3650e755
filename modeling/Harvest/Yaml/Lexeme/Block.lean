import Harvest.Yaml.Lexeme.Plain
import Harvest.Yaml.Scalar

/-!
Scalars that are blocks of lines, with an indentation of their own. The lines of a literal block are
kept; those of a folded block are joined where they are not indented further.
-/
namespace Harvest.Yaml

/-- What becomes of the line ends at the end of a block. -/
inductive Chomping where
  | strip
  | clip
  | keep

def Chomping.ofSign? : Char → Option Chomping
  | '-' => some strip
  | '+' => some keep
  | _ => none

/-- An indentation of a block, from 1 to 9. -/
def blockIndent? (c : Char) : Option Nat :=
  if c.isDigit && c != '0' then some (c.toNat - 48) else none

/-- The two marks that may follow the indicator of a block, in either order. -/
def blockMarks (p : Position) : Chomping × Option Nat × Position :=
  let sign := p.rest.head?.bind Chomping.ofSign?
  let p := if sign.isSome then p.next else p
  let indent := p.rest.head?.bind blockIndent?
  let p := if indent.isSome then p.next else p
  if sign.isNone && indent.isSome then
    let sign := p.rest.head?.bind Chomping.ofSign?
    (sign.getD .clip, indent, if sign.isSome then p.next else p)
  else (sign.getD .clip, indent, p)

/-- Empty lines: their line ends, the greatest indentation seen, and the start of the next line that
is not empty. Without a fixed indentation, all spaces indent. -/
def emptyLines (indent : Option Nat) : Nat → Position → Option (List Char × Nat × Position)
  | 0, _ => none
  | limit + 1, p =>
    let spaces := (p.rest.takeWhile isSpace).length
    let p := p.skip (match indent with
      | none => spaces
      | some n => min spaces (n - p.column))
    match p.rest with
    | [] => some ([], p.column, p)
    | c :: _ =>
      if c == '\t' && indent.all fun n => p.column < n then none
      else if isBreak c then do
        let (ends, most, q) ← emptyLines indent limit p.next
        some (c :: ends, max p.column most, q)
      else some ([], p.column, p)

/-- The lines of a block behind a line end, which is missing before the first one, and the line ends
of empty lines. In a folded block, line ends between lines that begin with no blank are joined. What
is left in the end are the last line end and those behind it. -/
def blockLines (literal : Bool) (indent : Nat) :
    Nat → List Char → List Char → Bool → Position →
      Option (List Char × List Char × List Char × Position)
  | 0, _, _, _, _ => none
  | limit + 1, lead, ends, wasBlank, p =>
    if p.column == indent && !p.rest.isEmpty then do
      let startsBlank := p.rest.head?.any isBlank
      let between :=
        if !literal && lead == ['\n'] && !wasBlank && !startsBlank then joinLines (lead ++ ends)
        else lead ++ ends
      let (line, p) := p.take fun c => !isBreak c
      let lead := p.rest.take 1
      let (ends, _, p) ← emptyLines (some indent) (p.rest.length + 1) p.next
      let (more, lead, ends, p) ← blockLines literal indent limit lead ends startsBlank p
      some (between ++ line ++ more, lead, ends, p)
    else some ([], lead, ends, p)

/-- A block scalar; its lines are indented by `least` at least. An indentation that is given counts
from that of the block around it. -/
def readBlock (literal : Bool) (least : Nat) (p : Position) : Option (List Char × Position) := do
  let (chomping, given, p) := blockMarks p.next
  let p ← p.finishLine?
  let fixed := given.map fun n => least - 1 + n
  let (ends, most, p) ← emptyLines fixed (p.rest.length + 1) p
  let indent := fixed.getD (max most (max least 1))
  let (text, lead, ends, p) ← blockLines literal indent (p.rest.length + 1) [] ends false p
  let tail := match chomping with
    | .strip => []
    | .clip => lead
    | .keep => lead ++ ends
  some (text ++ tail, p)

end Harvest.Yaml
