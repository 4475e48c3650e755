import Harvest.Crosswalk.DataCite
import Harvest.Crosswalk.DublinCore
import Harvest.Crosswalk.Iso19139
import Harvest.Record

/-!
Records of mixed schemas. The mappers of all schemas are kept at hand, and each record is mapped by
that of the schema it declares. A record that declares no schema that is known is refused.
-/
namespace Harvest.Crosswalk

open Xml

/-- What fills a document from metadata, given the view URL of the harvest. -/
abbrev Mapper := Option String → Element → Document → Document

/-- The mappers at hand. -/
structure Mappers where
  dataCite2 : Mapper
  dataCite3 : Mapper
  dataCite4 : Mapper
  dublinCore : Mapper
  iso19139 : Mapper

namespace Mappers

def all : Mappers where
  dataCite2 := DataCite.mapKernel2
  dataCite3 := DataCite.mapKernel3
  dataCite4 := DataCite.mapKernel4
  dublinCore := DublinCore.map
  iso19139 := Iso19139.map

def mapper (m : Mappers) : Schema → Mapper
  | .dataCite2 => m.dataCite2
  | .dataCite3 => m.dataCite3
  | .dataCite4 => m.dataCite4
  | .dublinCore => m.dublinCore
  | .iso19139 => m.iso19139

def mapFields (m : Mappers) (r : Record) (viewUrl : Option String) (metadata : Element)
    (d : Document) : Except Error Document :=
  match r.schema? with
  | some schema => .ok (m.mapper schema viewUrl metadata d)
  | none => .error (.unknownSchema r.identifier r.schemaLocation?)

end Mappers
end Harvest.Crosswalk
