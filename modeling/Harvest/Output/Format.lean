import Harvest.Document.Encoding
import Harvest.Files.Path
import Harvest.Output.Json
import Harvest.Text.Letter
import Harvest.Yaml.Block

/-!
The formats documents are written in. A file name tells the format by its extension.
-/
namespace Harvest.Output

inductive Format where
  | json
  | yaml
deriving DecidableEq, Repr

namespace Format

def name : Format → String
  | json => "json"
  | yaml => "yaml"

def ofName? (s : String) : Option Format :=
  if s == "json" then some json else if s == "yaml" then some yaml else none

/-- YAML for the extensions `yaml` and `yml` in any case, and JSON for all other names. -/
def ofPath (p : Files.Path) : Format :=
  match p.extension? with
  | none => json
  | some e => if Text.sameAscii e "yaml" || Text.sameAscii e "yml" then yaml else json

end Format

/-- A text with the end of its last line. -/
def closeLine (s : String) : String := if s.toList.getLast? == some '\n' then s else s ++ "\n"

def write (format : Format) (items : List Value) : String :=
  match format with
  | .json => Json.write 0 (.list items)
  | .yaml => Yaml.write items

/-- The text of a file of documents. -/
def render (documents : List Document) (format : Format) : String :=
  closeLine (write format (documents.map Document.toValue))

end Harvest.Output
