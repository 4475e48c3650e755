import Harvest.Crosswalk.Mixed
import Harvest.Settings

/-!
The crosswalk from records to documents. What the header says is treated alike for all schemas:
records without an identifier are refused, deleted ones are dropped or stand as tombstones, and the
set specs become subjects. Then the metadata are mapped by their schema, which is that of the whole
harvest or the one each record declares.
-/
namespace Harvest

open Xml

/-- Where a crosswalk takes the schema of a record from. -/
inductive Mapping where
  | bound (schema : Schema)
  | declared
deriving DecidableEq, Repr

def Mapping.name : Mapping → String
  | bound schema => schema.displayName
  | declared => "flexible"

/-- What all documents of a harvest have in common. -/
structure Context where
  repository : String
  logoUrl : Option String := none
  viewUrl : Option String := none
  deletionPolicy : DeletionPolicy := .dropDeleted
deriving DecidableEq, Repr

def Context.ofSettings (repository : String) (c : Settings) : Context where
  repository := repository
  logoUrl := c.logoUrl
  viewUrl := c.viewUrl
  deletionPolicy := c.deletionPolicy

/-- The mapper for a harvest of one schema. -/
def Schema.map (schema : Schema) (viewUrl : Option String) : Element → Document → Document :=
  match schema with
  | dataCite2 => Crosswalk.DataCite.mapKernel2 viewUrl
  | dataCite3 => Crosswalk.DataCite.mapKernel3 viewUrl
  | dataCite4 => Crosswalk.DataCite.mapKernel4 viewUrl
  | dublinCore => Crosswalk.DublinCore.map viewUrl
  | iso19139 => Crosswalk.Iso19139.map viewUrl

/-- Fills a document from the metadata of a record. -/
def Mapping.mapFields (mapping : Mapping) (r : Record) (viewUrl : Option String)
    (metadata : Element) (d : Document) : Except Error Document :=
  match mapping with
  | bound schema => .ok (schema.map viewUrl metadata d)
  | declared => Crosswalk.Mappers.all.mapFields r viewUrl metadata d

structure Crosswalk where
  mapping : Mapping
  context : Context
deriving DecidableEq, Repr

namespace Crosswalk

def logoLink (url : String) : WebLink := { name := "Logo", url, linkType := .providerLogo }

/-- The part of a document that does not depend on the metadata. -/
def outline (context : Context) (header : Header) : Document :=
  { identifier := header.identifier, repositoryIdentifier := context.repository,
    subjects := header.setSpecs.map fun value => { value },
    webLinks := (context.logoUrl.map logoLink).toList }

/-- The document of a record, or nothing for a deleted record that is dropped. -/
def transform (w : Crosswalk) (r : Record) : Except Error (Option Document) :=
  if r.identifier.isEmpty then .error (.missingElement "identifier" "record header")
  else if r.deleted then
    match w.context.deletionPolicy with
    | .dropDeleted => .ok none
    | .emitTombstone =>
      .ok (some (Document.tombstone r.identifier w.context.repository r.datestamp))
  else
    match r.metadata with
    | none => .error (.missingElement "metadata" ("record " ++ r.identifier))
    | some metadata =>
      (w.mapping.mapFields r w.context.viewUrl metadata (outline w.context r.header)).map some

end Crosswalk
end Harvest
