import Harvest.Document
import Harvest.Text.Piece

/-!
Links made from identifiers. Only DOIs and URLs lead anywhere: a URL to itself, a DOI to its
resolver. A document links to the resources it is related to, and last to the resource itself.
-/
namespace Harvest.Crosswalk

def resolver : String := "https://doi.org/"

def isAbsoluteUrl (s : String) : Bool :=
  let low := Text.lower (Text.trimStart s.toList)
  Text.startsWith low "http://".toList || Text.startsWith low "https://".toList

/-- The address of a DOI, which may be an address already or have a label before it. -/
def doiUrl (doi : String) : String :=
  let doi := Text.trim doi
  if isAbsoluteUrl doi then doi
  else
    let bare := ((Text.after? "doi:".toList doi.toList).or
      (Text.after? "DOI:".toList doi.toList)).getD doi.toList
    resolver ++ String.ofList bare

def looksLikeDoi (s : String) : Bool :=
  let s := Text.trimChars s.toList
  Text.startsWith s "10.".toList || Text.startsWith (Text.lower s) "doi:".toList

/-- The type of an identifier of which only the text is known. -/
def inferType (s : String) : Option String :=
  if looksLikeDoi s || Text.holds s.toList "doi.org/10.".toList then some "DOI"
  else if isAbsoluteUrl s then some "URL"
  else none

/-- Where an identifier leads. Its type is compared without regard to case. -/
def identifierUrl (value : String) (type : Option String) : Option String :=
  match type.map fun t => Text.upper t.toList with
  | some ['D', 'O', 'I'] => some (doiUrl value)
  | some ['U', 'R', 'L'] => some (Text.trim value)
  | _ => none

def relatedName : String := "Related Resource"

def relatedLink (r : RelatedIdentifier) : Option WebLink :=
  (identifierUrl r.value (some r.identifierType)).map fun url =>
    { name := r.relationType.getD relatedName, url, linkType := .related }

def relatedLinks (related : List RelatedIdentifier) : List WebLink := related.filterMap relatedLink

def viewName : String := "View the Resource"

/-- Where the identifier of a record goes in a view URL. -/
def placeholder : String := "{identifier}"

/-- The view URL of a record: the identifier goes into the placeholder, or behind a URL without
one. -/
def fillTemplate (template identifier : String) : String :=
  if Text.holds template.toList placeholder.toList then
    Text.replace template placeholder identifier
  else template ++ identifier

/-- The link to the record: by a view URL if there is one, or else by its resource identifier. -/
def viewLink (identifier : String) (resource : Option Identifier) (viewUrl : Option String) :
    Option WebLink :=
  let url := match viewUrl with
    | some template => some (fillTemplate template identifier)
    | none => resource.bind fun r => identifierUrl r.value r.identifierType
  url.map fun url => { name := viewName, url, linkType := .viewUrl }

def addLinks (viewUrl : Option String) (d : Document) : Document :=
  { d with
    webLinks := d.webLinks ++ relatedLinks d.relatedIdentifiers ++
      (viewLink d.identifier d.resourceIdentifier viewUrl).toList }

end Harvest.Crosswalk
