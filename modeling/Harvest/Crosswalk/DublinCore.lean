import Harvest.Crosswalk.Dates
import Harvest.Crosswalk.Links
import Harvest.Xml.Query

/-!
Records in unqualified Dublin Core. All fields are repeated texts without types, and what types a
document needs are inferred from the texts.
-/
namespace Harvest.Crosswalk.DublinCore

open Xml

def typed (value : String) : Identifier := { value, identifierType := inferType value }

def isDoi (value : String) : Bool := inferType value == some "DOI"

/-- The place of the identifier of the resource: that of the first DOI, or else of the first URL. -/
def mainIndex? (values : List String) : Option Nat :=
  (values.findIdx? isDoi).or (values.findIdx? fun v => (inferType v).isSome)

/-- One identifier goes to the resource if its place is the one that was found, and else behind the
others. -/
def dealOut (main : Option Nat) (dealt : Option Identifier × List Identifier)
    (here : String × Nat) : Option Identifier × List Identifier :=
  if some here.2 == main then (some (typed here.1), dealt.2)
  else (dealt.1, dealt.2 ++ [typed here.1])

/-- The identifier of the resource, if there is one, and the other identifiers. -/
def splitIdentifiers (values : List String) : Option Identifier × List Identifier :=
  values.zipIdx.foldl (dealOut (mainIndex? values)) (none, [])

/-- The first date is that of issue, the others are of no known type. -/
def datesOf : List String → List DocumentDate
  | [] => []
  | issued :: others =>
    { date := readDate issued, dateType := .issued } ::
      others.map fun value => { date := readDate value, dateType := .other }

def resourceTypeOf (value : String) : ResourceType :=
  { general := (ResourceKind.ofText? value).getD .other, value := some value }

def rightsOf (value : String) : Rights :=
  if isAbsoluteUrl value then { uri := some value } else { value := some value }

/-- A relation counts if its text is an identifier that leads somewhere. -/
def relationOf (value : String) : Option RelatedIdentifier :=
  (inferType value).map fun identifierType => { value, identifierType }

def map (viewUrl : Option String) (metadata : Element) (d : Document) : Document :=
  let texts (tag : String) : List String := metadata.childTexts tag
  let (main, others) := splitIdentifiers (texts "identifier")
  addLinks viewUrl <| fillYear
    { d with
      titles := (texts "title").map fun value => { value },
      creators := (texts "creator").map fun name => { name },
      contributors := (texts "contributor").map fun name =>
        { contributorType := "Other", person := { name } },
      subjects := d.subjects ++ (texts "subject").map fun value => { value },
      descriptions := (texts "description").map fun value => { value },
      publisher := metadata.childText? "publisher",
      language := metadata.childText? "language",
      dates := datesOf (texts "date"),
      resourceType := (metadata.childText? "type").map resourceTypeOf,
      formats := texts "format",
      rights := (texts "rights").map rightsOf,
      geoLocations := (texts "coverage").map fun place => { place := some place },
      relatedIdentifiers := (texts "relation").filterMap relationOf,
      resourceIdentifier := main,
      alternateIdentifiers := others }

end Harvest.Crosswalk.DublinCore
