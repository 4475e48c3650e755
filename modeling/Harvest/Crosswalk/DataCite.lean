import Harvest.Crosswalk.Coordinates
import Harvest.Crosswalk.Dates
import Harvest.Crosswalk.Links

/-!
DataCite records of the kernels 2, 3 and 4. Most fields are mapped alike. The kernels differ in how
they give rights, film as a resource type, funders, and coordinates: before kernel 4 a funder is a
contributor of that type, kernel 2 has a single rights statement, and each writes places in its own
way.
-/
namespace Harvest.Crosswalk.DataCite

open Xml

/-- The resource described: the metadata itself, or what an envelope around it holds. -/
def resourceOf (metadata : Element) : Element :=
  if metadata.name == "resource" then metadata
  else (metadata.descendant? "resource").getD metadata

/-- The elements of a list that has an element around it. -/
def itemsOf (list item : String) (resource : Element) : List Element :=
  match resource.child? list with
  | none => []
  | some group => group.childrenNamed item

def textsOf (list item : String) (resource : Element) : List String :=
  (itemsOf list item resource).filterMap Element.content?

/-- An identifier with its type in an attribute. -/
def identifierOf (typeName : String) (e : Element) : Option Identifier :=
  e.content?.map fun value => { value, identifierType := e.attributeText? typeName }

def titleOf (e : Element) : Option Title :=
  e.content?.map fun value =>
    { value, titleType := e.attributeText? "titleType", lang := e.language? }

def nameIdentifierOf (e : Element) : Option NameIdentifier :=
  e.content?.map fun value =>
    { value, scheme := e.attributeText? "nameIdentifierScheme",
      schemeUri := e.attributeText? "schemeURI" }

/-- A creator or contributor whose name is in an element called `nameTag`. -/
def personOf (nameTag : String) (e : Element) : Option Person := do
  let nameElement ← e.child? nameTag
  let name ← nameElement.content?
  some { name,
         nameType := nameElement.attributeText? "nameType",
         givenName := e.childText? "givenName",
         familyName := e.childText? "familyName",
         nameIdentifiers := (e.childrenNamed "nameIdentifier").filterMap nameIdentifierOf,
         affiliations := e.childTexts "affiliation" }

def contributorOf (e : Element) : Option Contributor :=
  (personOf "contributorName" e).map fun person =>
    { contributorType := (e.attributeText? "contributorType").getD "Other", person }

def subjectOf (e : Element) : Option Subject :=
  e.content?.map fun value =>
    { value, scheme := e.attributeText? "subjectScheme", schemeUri := e.attributeText? "schemeURI",
      valueUri := e.attributeText? "valueURI", lang := e.language? }

def dateOf (e : Element) : Option DocumentDate :=
  e.content?.map fun value =>
    { date := readDate value, dateType := DateType.ofText ((e.attribute? "dateType").getD ""),
      information := e.attributeText? "dateInformation" }

def descriptionOf (e : Element) : Option Description :=
  e.content?.map fun value =>
    { value, descriptionType := e.attributeText? "descriptionType", lang := e.language? }

/-- A related identifier must tell its type. -/
def relatedIdentifierOf (e : Element) : Option RelatedIdentifier := do
  let value ← e.content?
  let identifierType ← e.attributeText? "relatedIdentifierType"
  some { value, identifierType, relationType := e.attributeText? "relationType",
         resourceTypeGeneral := e.attributeText? "resourceTypeGeneral" }

def rightsOf (e : Element) : Option Rights :=
  let rights : Rights :=
    { value := e.content?, uri := e.attributeText? "rightsURI", lang := e.language? }
  if rights.value.isSome || rights.uri.isSome then some rights else none

/-- The fields that all kernels map alike. -/
def mapCommon (resource : Element) (d : Document) : Document :=
  { d with
    resourceIdentifier := (resource.child? "identifier").bind (identifierOf "identifierType"),
    titles := (itemsOf "titles" "title" resource).filterMap titleOf,
    creators := (itemsOf "creators" "creator" resource).filterMap (personOf "creatorName"),
    subjects := d.subjects ++ (itemsOf "subjects" "subject" resource).filterMap subjectOf,
    dates := (itemsOf "dates" "date" resource).filterMap dateOf,
    descriptions := (itemsOf "descriptions" "description" resource).filterMap descriptionOf,
    relatedIdentifiers :=
      (itemsOf "relatedIdentifiers" "relatedIdentifier" resource).filterMap relatedIdentifierOf,
    alternateIdentifiers :=
      (itemsOf "alternateIdentifiers" "alternateIdentifier" resource).filterMap
        (identifierOf "alternateIdentifierType"),
    sizes := textsOf "sizes" "size" resource,
    formats := textsOf "formats" "format" resource,
    publisher := resource.childText? "publisher",
    language := resource.childText? "language",
    version := resource.childText? "version",
    publicationYear := (resource.childText? "publicationYear").bind yearOf }

def contributorsOf (resource : Element) : List Contributor :=
  (itemsOf "contributors" "contributor" resource).filterMap contributorOf

def isFunder (c : Contributor) : Bool := Text.sameAscii c.contributorType "Funder"

/-- A funder among the contributors, with the first identifier of its name. -/
def fundingOfContributor (c : Contributor) : FundingReference :=
  { funderName := c.person.name,
    funderIdentifier := c.person.nameIdentifiers.head?.map fun n =>
      { value := n.value, identifierType := n.scheme } }

/-- Before kernel 4, funders are told apart from the other contributors by their type. -/
def mapFunders (resource : Element) (d : Document) : Document :=
  let (funders, contributors) := (contributorsOf resource).partition isFunder
  { d with contributors, fundingReferences := funders.map fundingOfContributor }

def fundingOf (e : Element) : Option FundingReference :=
  (e.childText? "funderName").map fun funderName =>
    { funderName,
      funderIdentifier := (e.child? "funderIdentifier").bind (identifierOf "funderIdentifierType"),
      awardNumber := e.childText? "awardNumber",
      awardUri := (e.child? "awardNumber").bind (Element.attributeText? "awardURI"),
      awardTitle := e.childText? "awardTitle" }

def singleRights (resource : Element) : List Rights :=
  ((resource.child? "rights").bind rightsOf).toList

def rightsList (resource : Element) : List Rights :=
  (itemsOf "rightsList" "rights" resource).filterMap rightsOf

/-- The kind of a resource whose record names one; names that are not known count as other. -/
def kindOf (filmIsKnown : Bool) (name : String) : ResourceKind :=
  if filmIsKnown && Text.sameAscii name "film" then .audiovisual
  else (ResourceKind.ofText? name).getD .other

def resourceTypeOf (filmIsKnown : Bool) (resource : Element) : Option ResourceType := do
  let e ← resource.child? "resourceType"
  let general := e.attributeText? "resourceTypeGeneral"
  let value := e.content?
  if general.isNone && value.isNone then none
  else some { general := (general.map (kindOf filmIsKnown)).getD .other, value }

/-- How a kernel writes places. -/
structure Places where
  point : Element → Option Point
  box : Element → Option BoundingBox
  polygons : Element → List (List Point)

def placeOf (p : Places) (e : Element) : GeoLocation :=
  { place := e.childText? "geoLocationPlace",
    point := (e.child? "geoLocationPoint").bind p.point,
    boundingBox := (e.child? "geoLocationBox").bind p.box,
    polygons := p.polygons e }

def placesOf (p : Places) (resource : Element) : List GeoLocation :=
  ((itemsOf "geoLocations" "geoLocation" resource).map (placeOf p)).filter fun g => !g.isEmpty

def places2 : Places where
  point e := pointLongitudeFirst e.text
  box e := boxByBounds e.text
  polygons _ := []

def places3 : Places where
  point e := pointLatitudeFirst e.text
  box e := boxByCorners e.text
  polygons _ := []

/-- The points of each polygon; points that cannot be read and polygons without points are left
out. -/
def polygonsOf (e : Element) : List (List Point) :=
  ((e.childrenNamed "geoLocationPolygon").map fun polygon =>
    (polygon.childrenNamed "polygonPoint").filterMap pointOfElement).filter fun points =>
      !points.isEmpty

def places4 : Places where
  point := pointOfElement
  box := boxOfElement
  polygons := polygonsOf

def finish (viewUrl : Option String) (d : Document) : Document := addLinks viewUrl (fillYear d)

def mapKernel2 (viewUrl : Option String) (metadata : Element) (d : Document) : Document :=
  let resource := resourceOf metadata
  finish viewUrl
    { mapFunders resource (mapCommon resource d) with
      rights := singleRights resource,
      resourceType := resourceTypeOf true resource,
      geoLocations := placesOf places2 resource }

def mapKernel3 (viewUrl : Option String) (metadata : Element) (d : Document) : Document :=
  let resource := resourceOf metadata
  finish viewUrl
    { mapFunders resource (mapCommon resource d) with
      rights := rightsList resource,
      resourceType := resourceTypeOf false resource,
      geoLocations := placesOf places3 resource }

def mapKernel4 (viewUrl : Option String) (metadata : Element) (d : Document) : Document :=
  let resource := resourceOf metadata
  finish viewUrl
    { mapCommon resource d with
      contributors := contributorsOf resource,
      fundingReferences :=
        (itemsOf "fundingReferences" "fundingReference" resource).filterMap fundingOf,
      rights := rightsList resource,
      resourceType := resourceTypeOf false resource,
      geoLocations := placesOf places4 resource }

end Harvest.Crosswalk.DataCite
