import Harvest.Number.Shortest
import Harvest.Value
import Harvest.Yaml.Scalar

/-!
Values in YAML, in block style. A list inside fields is not indented against its name; inside a list
the first line of an item stands behind the dash.
-/
namespace Harvest.Yaml

mutual

/-- A value behind the name of its field, where the fields are indented by `indent`. -/
def writeField (indent : Nat) : Value → List Char
  | .text s => ' ' :: scalar (indent + 2) s
  | .integer n => ' ' :: ((toString n).toList ++ ['\n'])
  | .real x => ' ' :: ((x.text false).toList ++ ['\n'])
  | .list [] => [' ', '[', ']', '\n']
  | .list (item :: more) =>
    '\n' :: (margin indent ++ '-' :: (writeItem indent item ++ writeItems indent more))
  | .fields [] => [' ', '\x7b', '\x7d', '\n']
  | .fields ((name, value) :: more) =>
    '\n' :: (margin (indent + 2) ++ name.toList ++
      ':' :: (writeField (indent + 2) value ++ writeEntries (indent + 2) more))

/-- A value behind the dash of its item, where the dashes are indented by `indent`. -/
def writeItem (indent : Nat) : Value → List Char
  | .text s => ' ' :: scalar (indent + 2) s
  | .integer n => ' ' :: ((toString n).toList ++ ['\n'])
  | .real x => ' ' :: ((x.text false).toList ++ ['\n'])
  | .list [] => [' ', '[', ']', '\n']
  | .list (item :: more) =>
    ' ' :: '-' :: (writeItem (indent + 2) item ++ writeItems (indent + 2) more)
  | .fields [] => [' ', '\x7b', '\x7d', '\n']
  | .fields ((name, value) :: more) =>
    ' ' :: (name.toList ++
      ':' :: (writeField (indent + 2) value ++ writeEntries (indent + 2) more))

def writeItems (indent : Nat) : List Value → List Char
  | [] => []
  | item :: more => margin indent ++ '-' :: (writeItem indent item ++ writeItems indent more)

def writeEntries (indent : Nat) : List (String × Value) → List Char
  | [] => []
  | (name, value) :: more =>
    margin indent ++ name.toList ++ ':' :: (writeField indent value ++ writeEntries indent more)

end

/-- A list of values as a document. -/
def write (items : List Value) : String :=
  if items.isEmpty then "[]\n" else String.ofList (writeItems 0 items)

end Harvest.Yaml
