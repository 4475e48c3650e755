import Harvest.Number.Binary64
import Harvest.Text.Letter
import Harvest.Text.Blank

/-!
The documents that records are mapped to, whatever schema they came in. Values of free vocabularies
stay texts; date types, resource types and link types are closed lists.
-/
namespace Harvest

/-- An identifier with its type, such as `DOI` or `Handle`. -/
structure Identifier where
  value : String
  identifierType : Option String := none
deriving DecidableEq, Repr

structure Title where
  value : String
  titleType : Option String := none
  lang : Option String := none
deriving DecidableEq, Repr

/-- The identifier of a person or organization in some scheme. -/
structure NameIdentifier where
  value : String
  scheme : Option String := none
  schemeUri : Option String := none
deriving DecidableEq, Repr

structure Person where
  name : String
  nameType : Option String := none
  givenName : Option String := none
  familyName : Option String := none
  nameIdentifiers : List NameIdentifier := []
  affiliations : List String := []
deriving DecidableEq, Repr

structure Contributor where
  contributorType : String
  person : Person
deriving DecidableEq, Repr

inductive DateType where
  | accepted
  | available
  | copyrighted
  | collected
  | created
  | issued
  | submitted
  | updated
  | valid
  | withdrawn
  | other
deriving DecidableEq, Repr

/-- A date or a range of dates, as written. -/
inductive DateValue where
  | point (value : String)
  | range (start stop : Option String)
deriving DecidableEq, Repr

structure DocumentDate where
  date : DateValue
  dateType : DateType
  information : Option String := none
deriving DecidableEq, Repr

structure Description where
  value : String
  descriptionType : Option String := none
  lang : Option String := none
deriving DecidableEq, Repr

structure Subject where
  value : String
  scheme : Option String := none
  schemeUri : Option String := none
  valueUri : Option String := none
  lang : Option String := none
deriving DecidableEq, Repr

structure Rights where
  value : Option String := none
  uri : Option String := none
  lang : Option String := none
deriving DecidableEq, Repr

structure RelatedIdentifier where
  value : String
  identifierType : String
  relationType : Option String := none
  resourceTypeGeneral : Option String := none
deriving DecidableEq, Repr

/-- A place in decimal degrees. -/
structure Point where
  longitude : Number.Binary64
  latitude : Number.Binary64
deriving DecidableEq, Repr

structure BoundingBox where
  west : Number.Binary64
  east : Number.Binary64
  south : Number.Binary64
  north : Number.Binary64
deriving DecidableEq, Repr

structure GeoLocation where
  place : Option String := none
  point : Option Point := none
  boundingBox : Option BoundingBox := none
  polygons : List (List Point) := []
deriving DecidableEq, Repr

structure FundingReference where
  funderName : String
  funderIdentifier : Option Identifier := none
  awardNumber : Option String := none
  awardUri : Option String := none
  awardTitle : Option String := none
deriving DecidableEq, Repr

inductive LinkType where
  | providerLogo
  | viewUrl
  | related
  | researchData
deriving DecidableEq, Repr

structure WebLink where
  name : String
  url : String
  linkType : LinkType
deriving DecidableEq, Repr

inductive ResourceKind where
  | audiovisual
  | collection
  | dataPaper
  | dataset
  | event
  | image
  | interactiveResource
  | model
  | physicalObject
  | service
  | software
  | sound
  | text
  | workflow
  | other
deriving DecidableEq, Repr

structure ResourceType where
  general : ResourceKind
  value : Option String := none
deriving DecidableEq, Repr

structure Document where
  /-- The identifier in the header of the record. -/
  identifier : String
  repositoryIdentifier : String
  /-- The identifier of the resource itself, usually a DOI. -/
  resourceIdentifier : Option Identifier := none
  titles : List Title := []
  creators : List Person := []
  contributors : List Contributor := []
  dates : List DocumentDate := []
  descriptions : List Description := []
  subjects : List Subject := []
  rights : List Rights := []
  relatedIdentifiers : List RelatedIdentifier := []
  alternateIdentifiers : List Identifier := []
  geoLocations : List GeoLocation := []
  fundingReferences : List FundingReference := []
  webLinks : List WebLink := []
  publisher : Option String := none
  language : Option String := none
  version : Option String := none
  resourceType : Option ResourceType := none
  /-- Years are read off four digits, so they have no sign. -/
  publicationYear : Option Int := none
  formats : List String := []
  sizes : List String := []
deriving DecidableEq, Repr

namespace DateType

def name : DateType → String
  | accepted => "Accepted"
  | available => "Available"
  | copyrighted => "Copyrighted"
  | collected => "Collected"
  | created => "Created"
  | issued => "Issued"
  | submitted => "Submitted"
  | updated => "Updated"
  | valid => "Valid"
  | withdrawn => "Withdrawn"
  | other => "Other"

def all : List DateType :=
  [accepted, available, copyrighted, collected, created, issued, submitted, updated, valid,
   withdrawn, other]

/-- The date type of a name in any case; `other` if there is none of that name. -/
def ofText (s : String) : DateType :=
  let key := Text.lower (Text.trimChars s.toList)
  (all.find? fun t => Text.lower t.name.toList == key).getD other

end DateType

namespace ResourceKind

def name : ResourceKind → String
  | audiovisual => "Audiovisual"
  | collection => "Collection"
  | dataPaper => "DataPaper"
  | dataset => "Dataset"
  | event => "Event"
  | image => "Image"
  | interactiveResource => "InteractiveResource"
  | model => "Model"
  | physicalObject => "PhysicalObject"
  | service => "Service"
  | software => "Software"
  | sound => "Sound"
  | text => "Text"
  | workflow => "Workflow"
  | other => "Other"

def all : List ResourceKind :=
  [audiovisual, collection, dataPaper, dataset, event, image, interactiveResource, model,
   physicalObject, service, software, sound, text, workflow, other]

/-- The resource kind of a name in any case. -/
def ofText? (s : String) : Option ResourceKind :=
  let key := Text.lower (Text.trimChars s.toList)
  all.find? fun k => Text.lower k.name.toList == key

end ResourceKind

def LinkType.name : LinkType → String
  | providerLogo => "provider_logo"
  | viewUrl => "view_url"
  | related => "related"
  | researchData => "research_data"

def GeoLocation.isEmpty (g : GeoLocation) : Bool :=
  g.place.isNone && g.point.isNone && g.boundingBox.isNone && g.polygons.isEmpty

namespace Document

/-- The version of documents that stand in for deleted records. -/
def deletedVersion : String := "deleted"

/-- The document that stands in for a deleted record, dated by the deletion if that is known. -/
def tombstone (identifier repositoryIdentifier : String) (datestamp : Option String) : Document :=
  { identifier, repositoryIdentifier, version := some deletedVersion,
    dates := (datestamp.map fun d => { date := .point d, dateType := .updated }).toList }

def isTombstone (d : Document) : Bool := d.version == some deletedVersion

def mainTitle? (d : Document) : Option String := d.titles.head?.map (·.value)

end Document
end Harvest
