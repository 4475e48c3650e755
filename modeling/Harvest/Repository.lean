import Harvest.Error
import Harvest.Xml.Document
import Harvest.Xml.Query

/-!
What a repository calls itself.
-/
namespace Harvest.Repository

/-- The name of a repository that does not tell one. -/
def unknownName : String := "Unknown"

def parseName (body : String) : Except Error (Option String) :=
  match Xml.parse? body with
  | some root =>
    .ok ((root.anywhere? "repositoryName").bind fun e => Text.nonEmpty e.leadText)
  | none => .error .malformedXml

/-- The name in an answer, whatever the answer is. -/
def nameOfAnswer (answer : Except Error String) : String :=
  match answer.bind parseName with
  | .ok (some name) => name
  | .ok none => unknownName
  | .error _ => unknownName

end Harvest.Repository
