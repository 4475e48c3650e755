import Harvest.Crosswalk.Coordinates
import Harvest.Crosswalk.Dates
import Harvest.Crosswalk.Links

/-!
Geographic metadata in ISO 19139. Values stand inside wrapping elements, whose texts include theirs,
and codes stand in an attribute.
-/
namespace Harvest.Crosswalk.Iso19139

open Xml

def codeAttribute (e : Element) : Option String := e.attributeText? "codeListValue"

/-- The code of the first code element inside, or its text, or else the text of the whole. -/
def codeOf (codeTag : String) (e : Element) : Option String :=
  ((e.descendant? codeTag).bind fun code => (codeAttribute code).or code.content?).or e.content?

def dateTypeOf : Option String → DateType
  | some "publication" => .issued
  | some "creation" => .created
  | some "revision" => .updated
  | _ => .other

def kindOfScope : String → ResourceKind
  | "dataset" => .dataset
  | "series" => .collection
  | "service" => .service
  | "software" => .software
  | "model" => .model
  | _ => .other

def titlesOf (citation : Element) : List Title :=
  ((citation.childText? "title").map fun value => ({ value } : Title)).toList ++
    (citation.childTexts "alternateTitle").map fun value =>
      { value, titleType := some "AlternativeTitle" }

def dateOf (e : Element) : Option DocumentDate := do
  let dated ← e.child? "CI_Date"
  let value ← dated.childText? "date"
  let code := (dated.descendant? "CI_DateTypeCode").bind codeAttribute
  some { date := readDate value, dateType := dateTypeOf code }

def identifierOf (citation : Element) : Option Identifier :=
  (((citation.descendant? "MD_Identifier").or (citation.descendant? "RS_Identifier")).bind
    (Element.childText? "code")).map fun value => { value, identifierType := inferType value }

/-- A party that is named, with the role it has. -/
structure Party where
  person : Person
  role : Option String
deriving DecidableEq, Repr

/-- A party is named by a person or else by an organization; the organization of a person is its
affiliation. -/
def partyOf (e : Element) : Option Party :=
  let role := (e.descendant? "CI_RoleCode").bind codeAttribute
  let organisation := e.childText? "organisationName"
  match e.childText? "individualName" with
  | some name => some { person := { name, affiliations := organisation.toList }, role }
  | none => organisation.map fun name => { person := { name }, role }

def creatorRoles : List String := ["author", "originator", "principalInvestigator"]

def addCreator (person : Person) (d : Document) : Document :=
  { d with creators := d.creators ++ [person] }

def addContributor (role : String) (person : Person) (d : Document) : Document :=
  { d with contributors := d.contributors ++ [{ contributorType := role, person }] }

/-- A party without a role is a creator. The first party that publishes becomes the publisher; later
ones are contributors, as are parties with any other role. -/
def addParty (d : Document) (p : Party) : Document :=
  match p.role with
  | none => addCreator p.person d
  | some role =>
    if creatorRoles.contains role then addCreator p.person d
    else if role == "publisher" && d.publisher.isNone then
      { d with publisher := some p.person.name }
    else addContributor role p.person d

def partiesOf (citation : Element) : List Party :=
  (citation.descendants "CI_ResponsibleParty").filterMap partyOf

def mapCitation (citation : Element) (d : Document) : Document :=
  (partiesOf citation).foldl addParty
    { d with
      titles := titlesOf citation,
      dates := (citation.childrenNamed "date").filterMap dateOf,
      resourceIdentifier := identifierOf citation }

def topicOf (value : String) : Subject := { value, scheme := some "ISO 19115 Topic Category" }

def constraintTexts (constraints : Element) : List String :=
  (constraints.descendants "useLimitation" ++ constraints.descendants "otherConstraints").filterMap
    Element.content?

/-- The box around an extent, of which each bound is an element. -/
def boxOf (e : Element) : Option BoundingBox := do
  let west ← childCoordinate "westBoundLongitude" e
  let east ← childCoordinate "eastBoundLongitude" e
  let south ← childCoordinate "southBoundLatitude" e
  let north ← childCoordinate "northBoundLatitude" e
  some { west, east, south, north }

def extentOf (e : Element) : GeoLocation :=
  { place := e.childText? "description",
    boundingBox := (e.descendant? "EX_GeographicBoundingBox").bind boxOf }

def mapIdentification (identification : Element) (d : Document) : Document :=
  let d := match identification.descendant? "CI_Citation" with
    | some citation => mapCitation citation d
    | none => d
  { d with
    descriptions := ((identification.childText? "abstract").map fun value =>
      ({ value, descriptionType := some "Abstract" } : Description)).toList,
    subjects := d.subjects ++
      ((identification.descendants "keyword").filterMap Element.content?).map
        (fun value => { value := value }) ++
      (identification.childTexts "topicCategory").map topicOf,
    rights := ((identification.descendants "resourceConstraints").flatMap constraintTexts).map
      fun value => { value := some value },
    geoLocations := ((identification.descendants "EX_Extent").map extentOf).filter fun g =>
      !g.isEmpty }

/-- The identifier of the metadata file stands in for that of the resource, or beside it. -/
def addFileIdentifier (metadata : Element) (d : Document) : Document :=
  match metadata.childText? "fileIdentifier" with
  | none => d
  | some value =>
    if d.resourceIdentifier.isNone then { d with resourceIdentifier := some { value } }
    else { d with alternateIdentifiers := d.alternateIdentifiers ++ [{ value }] }

/-- The name of the link to the data where the record has no title. -/
def dataName : String := "Research Data"

/-- The link to the data itself, at the first URL of the first transfer options. -/
def dataLink (metadata : Element) (title : Option String) : Option WebLink := do
  let transfer ← metadata.descendant? "transferOptions"
  let address ← transfer.descendant? "URL"
  let url ← address.content?
  some { name := title.getD dataName, url, linkType := .researchData }

def mapDescription (metadata : Element) (d : Document) : Document :=
  { d with
    language := (metadata.child? "language").bind (codeOf "LanguageCode"),
    resourceType := ((metadata.child? "hierarchyLevel").bind (codeOf "MD_ScopeCode")).map
      fun scope => { general := kindOfScope scope, value := some scope },
    formats := (metadata.descendants "MD_Format").filterMap (Element.childText? "name") }

/-- Without a year of issue, the year of the metadata's own date is the publication year. -/
def fillYearOfMetadata (metadata : Element) (d : Document) : Document :=
  { d with
    publicationYear := d.publicationYear.or ((metadata.childText? "dateStamp").bind yearOf) }

def addDataLink (metadata : Element) (d : Document) : Document :=
  { d with webLinks := d.webLinks ++ (dataLink metadata d.mainTitle?).toList }

def map (viewUrl : Option String) (metadata : Element) (d : Document) : Document :=
  let d := match (metadata.child? "identificationInfo").bind fun i => i.children.head? with
    | some identification => mapIdentification identification d
    | none => d
  addLinks viewUrl <| addDataLink metadata <| fillYearOfMetadata metadata <| fillYear <|
    mapDescription metadata <| addFileIdentifier metadata d

end Harvest.Crosswalk.Iso19139
