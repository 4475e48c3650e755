/-!
Finding a mark inside a text, cutting there, and putting another text in its place. A mark is
found at its first occurrence; occurrences that overlap an earlier one do not count.
-/
namespace Harvest.Text

/-- What follows `mark` in a text that starts with it. -/
def after? (mark s : List Char) : Option (List Char) :=
  if mark.isPrefixOf s then some (s.drop mark.length) else none

def startsWith (s mark : List Char) : Bool := mark.isPrefixOf s

/-- The text before and after the first occurrence of `mark`. -/
def cutAt (mark : List Char) : List Char → Option (List Char × List Char)
  | [] => if mark.isEmpty then some ([], []) else none
  | c :: rest =>
    if mark.isPrefixOf (c :: rest) then some ([], (c :: rest).drop mark.length)
    else (cutAt mark rest).map fun (left, right) => (c :: left, right)

def holds (s mark : List Char) : Bool := (cutAt mark s).isSome

/-- Every occurrence of `mark` becomes `new`; `skip` counts the characters of the last one found
that are still to pass. -/
def replaceFrom (mark new : List Char) : Nat → List Char → List Char
  | _, [] => []
  | skip + 1, _ :: rest => replaceFrom mark new skip rest
  | 0, c :: rest =>
    if mark.isPrefixOf (c :: rest) then new ++ replaceFrom mark new (mark.length - 1) rest
    else c :: replaceFrom mark new 0 rest

def replace (s mark new : String) : String :=
  String.ofList (replaceFrom mark.toList new.toList 0 s.toList)

end Harvest.Text
