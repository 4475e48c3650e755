import Harvest.Document.Encoding

/-!
Documents out of values. Fields are looked up by their names, so their order does not count. A field
that is not there holds nothing, and a value that is no document is refused.
-/
namespace Harvest

namespace Value

def text? : Value → Option String
  | text s => some s
  | _ => none

def integer? : Value → Option Int
  | integer n => some n
  | _ => none

def real? : Value → Option Number.Binary64
  | real x => some x
  | _ => none

/-- What is read from the entries of a value with fields. -/
def record {α : Type} (read : List (String × Value) → Option α) : Value → Option α
  | fields entries => read entries
  | _ => none

def items? {α : Type} (read : Value → Option α) : Value → Option (List α)
  | list items => items.mapM read
  | _ => none

section

variable {α : Type} (name : String) (read : Value → Option α) (entries : List (String × Value))

/-- A field that must be there. -/
def one : Option α := (entries.lookup name).bind read

/-- A field that may be left out. It is refused if it is there and cannot be read. -/
def atMostOne : Option (Option α) := (entries.lookup name).mapM read

/-- A field with a list, which is left out if the list is empty. -/
def many : Option (List α) :=
  match entries.lookup name with
  | none => some []
  | some items => items.items? read

end

/-- The one of some kinds that has the name. -/
def named? {α : Type} (kinds : List α) (nameOf : α → String) (v : Value) : Option α :=
  v.text?.bind fun s => kinds.find? fun kind => nameOf kind == s

end Value

open Value

def Identifier.ofValue? : Value → Option Identifier := record fun e => do
  some { value := ← one "value" text? e,
         identifierType := ← atMostOne "identifier_type" text? e }

def Title.ofValue? : Value → Option Title := record fun e => do
  some { value := ← one "value" text? e,
         titleType := ← atMostOne "title_type" text? e,
         lang := ← atMostOne "lang" text? e }

def NameIdentifier.ofValue? : Value → Option NameIdentifier := record fun e => do
  some { value := ← one "value" text? e,
         scheme := ← atMostOne "scheme" text? e,
         schemeUri := ← atMostOne "scheme_uri" text? e }

def Person.ofEntries? (e : List (String × Value)) : Option Person := do
  some { name := ← one "name" text? e,
         nameType := ← atMostOne "name_type" text? e,
         givenName := ← atMostOne "given_name" text? e,
         familyName := ← atMostOne "family_name" text? e,
         nameIdentifiers := ← many "name_identifiers" NameIdentifier.ofValue? e,
         affiliations := ← many "affiliations" text? e }

def Person.ofValue? : Value → Option Person := record Person.ofEntries?

def Contributor.ofValue? : Value → Option Contributor := record fun e => do
  some { contributorType := ← one "contributor_type" text? e,
         person := ← Person.ofEntries? e }

def DateValue.ofValue? : Value → Option DateValue := record fun e => do
  match ← one "kind" text? e with
  | "point" => some (.point (← one "value" text? e))
  | "range" => some (.range (← atMostOne "start" text? e) (← atMostOne "end" text? e))
  | _ => none

def DateType.ofValue? : Value → Option DateType := named? DateType.all DateType.name

def DocumentDate.ofValue? : Value → Option DocumentDate := record fun e => do
  some { date := ← one "date" DateValue.ofValue? e,
         dateType := ← one "date_type" DateType.ofValue? e,
         information := ← atMostOne "information" text? e }

def Description.ofValue? : Value → Option Description := record fun e => do
  some { value := ← one "value" text? e,
         descriptionType := ← atMostOne "description_type" text? e,
         lang := ← atMostOne "lang" text? e }

def Subject.ofValue? : Value → Option Subject := record fun e => do
  some { value := ← one "value" text? e,
         scheme := ← atMostOne "scheme" text? e,
         schemeUri := ← atMostOne "scheme_uri" text? e,
         valueUri := ← atMostOne "value_uri" text? e,
         lang := ← atMostOne "lang" text? e }

def Rights.ofValue? : Value → Option Rights := record fun e => do
  some { value := ← atMostOne "value" text? e,
         uri := ← atMostOne "uri" text? e,
         lang := ← atMostOne "lang" text? e }

def RelatedIdentifier.ofValue? : Value → Option RelatedIdentifier := record fun e => do
  some { value := ← one "value" text? e,
         identifierType := ← one "identifier_type" text? e,
         relationType := ← atMostOne "relation_type" text? e,
         resourceTypeGeneral := ← atMostOne "resource_type_general" text? e }

def Point.ofValue? : Value → Option Point := record fun e => do
  some { longitude := ← one "longitude" real? e, latitude := ← one "latitude" real? e }

def BoundingBox.ofValue? : Value → Option BoundingBox := record fun e => do
  some { west := ← one "west" real? e,
         east := ← one "east" real? e,
         south := ← one "south" real? e,
         north := ← one "north" real? e }

def GeoLocation.ofValue? : Value → Option GeoLocation := record fun e => do
  some { place := ← atMostOne "place" text? e,
         point := ← atMostOne "point" Point.ofValue? e,
         boundingBox := ← atMostOne "bounding_box" BoundingBox.ofValue? e,
         polygons := ← many "polygons" (items? Point.ofValue?) e }

def FundingReference.ofValue? : Value → Option FundingReference := record fun e => do
  some { funderName := ← one "funder_name" text? e,
         funderIdentifier := ← atMostOne "funder_identifier" Identifier.ofValue? e,
         awardNumber := ← atMostOne "award_number" text? e,
         awardUri := ← atMostOne "award_uri" text? e,
         awardTitle := ← atMostOne "award_title" text? e }

def LinkType.all : List LinkType := [.providerLogo, .viewUrl, .related, .researchData]

def WebLink.ofValue? : Value → Option WebLink := record fun e => do
  some { name := ← one "name" text? e,
         url := ← one "url" text? e,
         linkType := ← one "link_type" (named? LinkType.all LinkType.name) e }

def ResourceType.ofValue? : Value → Option ResourceType := record fun e => do
  some { general := ← one "general" (named? ResourceKind.all ResourceKind.name) e,
         value := ← atMostOne "value" text? e }

def Document.ofValue? : Value → Option Document := record fun e => do
  some { identifier := ← one "identifier" text? e,
         repositoryIdentifier := ← one "repository_identifier" text? e,
         resourceIdentifier := ← atMostOne "resource_identifier" Identifier.ofValue? e,
         titles := ← many "titles" Title.ofValue? e,
         creators := ← many "creators" Person.ofValue? e,
         contributors := ← many "contributors" Contributor.ofValue? e,
         dates := ← many "dates" DocumentDate.ofValue? e,
         descriptions := ← many "descriptions" Description.ofValue? e,
         subjects := ← many "subjects" Subject.ofValue? e,
         rights := ← many "rights" Rights.ofValue? e,
         relatedIdentifiers := ← many "related_identifiers" RelatedIdentifier.ofValue? e,
         alternateIdentifiers := ← many "alternate_identifiers" Identifier.ofValue? e,
         geoLocations := ← many "geo_locations" GeoLocation.ofValue? e,
         fundingReferences := ← many "funding_references" FundingReference.ofValue? e,
         webLinks := ← many "web_links" WebLink.ofValue? e,
         publisher := ← atMostOne "publisher" text? e,
         language := ← atMostOne "language" text? e,
         version := ← atMostOne "version" text? e,
         resourceType := ← atMostOne "resource_type" ResourceType.ofValue? e,
         publicationYear := ← atMostOne "publication_year" integer? e,
         formats := ← many "formats" text? e,
         sizes := ← many "sizes" text? e }

end Harvest
