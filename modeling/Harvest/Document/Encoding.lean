import Harvest.Document
import Harvest.Value

/-!
Documents as values. A field that holds nothing is left out. The person of a contributor has its
fields among those of the contributor, and a date tells first whether it is a point or a range.
-/
namespace Harvest

open Value

def Identifier.toValue (i : Identifier) : Value :=
  fields (("value", text i.value) :: optional "identifier_type" text i.identifierType)

def Title.toValue (t : Title) : Value :=
  fields (("value", text t.value) ::
    (optional "title_type" text t.titleType ++ optional "lang" text t.lang))

def NameIdentifier.toValue (n : NameIdentifier) : Value :=
  fields (("value", text n.value) ::
    (optional "scheme" text n.scheme ++ optional "scheme_uri" text n.schemeUri))

def Person.entries (p : Person) : List (String × Value) :=
  ("name", text p.name) ::
    (optional "name_type" text p.nameType ++ optional "given_name" text p.givenName ++
      optional "family_name" text p.familyName ++
      several "name_identifiers" NameIdentifier.toValue p.nameIdentifiers ++
      several "affiliations" text p.affiliations)

def Person.toValue (p : Person) : Value := fields p.entries

def Contributor.toValue (c : Contributor) : Value :=
  fields (("contributor_type", text c.contributorType) :: c.person.entries)

def DateValue.toValue : DateValue → Value
  | point value => fields [("kind", text "point"), ("value", text value)]
  | range start stop =>
    fields (("kind", text "range") :: (optional "start" text start ++ optional "end" text stop))

def DocumentDate.toValue (d : DocumentDate) : Value :=
  fields (("date", d.date.toValue) :: ("date_type", text d.dateType.name) ::
    optional "information" text d.information)

def Description.toValue (d : Description) : Value :=
  fields (("value", text d.value) ::
    (optional "description_type" text d.descriptionType ++ optional "lang" text d.lang))

def Subject.toValue (s : Subject) : Value :=
  fields (("value", text s.value) ::
    (optional "scheme" text s.scheme ++ optional "scheme_uri" text s.schemeUri ++
      optional "value_uri" text s.valueUri ++ optional "lang" text s.lang))

def Rights.toValue (r : Rights) : Value :=
  fields (optional "value" text r.value ++ optional "uri" text r.uri ++
    optional "lang" text r.lang)

def RelatedIdentifier.toValue (r : RelatedIdentifier) : Value :=
  fields (("value", text r.value) :: ("identifier_type", text r.identifierType) ::
    (optional "relation_type" text r.relationType ++
      optional "resource_type_general" text r.resourceTypeGeneral))

def Point.toValue (p : Point) : Value :=
  fields [("longitude", real p.longitude), ("latitude", real p.latitude)]

def BoundingBox.toValue (b : BoundingBox) : Value :=
  fields [("west", real b.west), ("east", real b.east), ("south", real b.south),
    ("north", real b.north)]

def GeoLocation.toValue (g : GeoLocation) : Value :=
  fields (optional "place" text g.place ++ optional "point" Point.toValue g.point ++
    optional "bounding_box" BoundingBox.toValue g.boundingBox ++
    several "polygons" (fun points => list (points.map Point.toValue)) g.polygons)

def FundingReference.toValue (f : FundingReference) : Value :=
  fields (("funder_name", text f.funderName) ::
    (optional "funder_identifier" Identifier.toValue f.funderIdentifier ++
      optional "award_number" text f.awardNumber ++ optional "award_uri" text f.awardUri ++
      optional "award_title" text f.awardTitle))

def WebLink.toValue (w : WebLink) : Value :=
  fields [("name", text w.name), ("url", text w.url), ("link_type", text w.linkType.name)]

def ResourceType.toValue (r : ResourceType) : Value :=
  fields (("general", text r.general.name) :: optional "value" text r.value)

def Document.toValue (d : Document) : Value :=
  fields (("identifier", text d.identifier) ::
    ("repository_identifier", text d.repositoryIdentifier) ::
    (optional "resource_identifier" Identifier.toValue d.resourceIdentifier ++
      several "titles" Title.toValue d.titles ++
      several "creators" Person.toValue d.creators ++
      several "contributors" Contributor.toValue d.contributors ++
      several "dates" DocumentDate.toValue d.dates ++
      several "descriptions" Description.toValue d.descriptions ++
      several "subjects" Subject.toValue d.subjects ++
      several "rights" Rights.toValue d.rights ++
      several "related_identifiers" RelatedIdentifier.toValue d.relatedIdentifiers ++
      several "alternate_identifiers" Identifier.toValue d.alternateIdentifiers ++
      several "geo_locations" GeoLocation.toValue d.geoLocations ++
      several "funding_references" FundingReference.toValue d.fundingReferences ++
      several "web_links" WebLink.toValue d.webLinks ++
      optional "publisher" text d.publisher ++
      optional "language" text d.language ++
      optional "version" text d.version ++
      optional "resource_type" ResourceType.toValue d.resourceType ++
      optional "publication_year" integer d.publicationYear ++
      several "formats" text d.formats ++
      several "sizes" text d.sizes))

end Harvest
