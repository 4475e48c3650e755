import Harvest.Number.Binary64

/-!
Values as both output formats write them: texts, whole numbers, floating-point numbers, lists, and
named fields in a fixed order.
-/
namespace Harvest

inductive Value where
  | text (s : String)
  | integer (n : Int)
  | real (x : Number.Binary64)
  | list (items : List Value)
  | fields (entries : List (String × Value))

namespace Value

/-- A field that is there if there is something to put in it. -/
def optional {α : Type} (name : String) (encode : α → Value) : Option α → List (String × Value)
  | none => []
  | some a => [(name, encode a)]

/-- A list as a field that is there if the list has items. -/
def several {α : Type} (name : String) (encode : α → Value) : List α → List (String × Value)
  | [] => []
  | a :: more => [(name, list ((a :: more).map encode))]

end Value
end Harvest
