import Harvest.Proofs.Answer
import Harvest.Proofs.LetterCase
import Harvest.Proofs.Selection

/-!
The DataCite kernels side by side. On the same record the three kernels map most fields alike, and
these decide the year and the links too. Kernel 2 alone knows films. Kernels 2 and 3 divide what is
the list of contributors in kernel 4 into contributors and funders.
-/
namespace Harvest.Kernels

open Xml Answer LetterCase Crosswalk DataCite Selection

/-- A document without the fields that not all kernels map alike. -/
def shared (d : Document) : Document :=
  { d with
    contributors := [], fundingReferences := [], rights := [], resourceType := none,
    geoLocations := [] }

/-- Year and links come from the fields that are mapped alike. -/
theorem shared_finish (viewUrl : Option String) {d d' : Document} (h : shared d = shared d') :
    shared (finish viewUrl d) = shared (finish viewUrl d') := by
  have hfinish (d : Document) : shared (finish viewUrl d) = finish viewUrl (shared d) := rfl
  rw [hfinish, hfinish, h]

/-! Films -/

theorem kindOf_film {name : String} (h : Text.sameAscii name "film" = true) :
    kindOf true name = .audiovisual ∧ kindOf false name = .other := by
  have hunknown : ResourceKind.ofText? "film" = none := by decide
  constructor
  · simp only [kindOf, h, Bool.and_self, if_true]
  · simp only [kindOf, Bool.false_and, Bool.false_eq_true, if_false, ofText?_of_sameAscii h,
      hunknown, Option.getD_none]

theorem kindOf_not_film {name : String} (h : Text.sameAscii name "film" = false) :
    kindOf true name = kindOf false name := by
  simp only [kindOf, h, Bool.and_false]

/-- The general type that a resource names. -/
def generalType? (resource : Element) : Option String :=
  (resource.child? "resourceType").bind (Element.attributeText? "resourceTypeGeneral")

/-- The resource is a film, in letters of any case. -/
def isFilm (resource : Element) : Bool := (generalType? resource).any (Text.sameAscii · "film")

/-- A resource without a general type has no kind, or the kind `other`, in all kernels. -/
theorem resourceTypeOf_unnamed {resource : Element} (hname : generalType? resource = none) :
    DataCite.resourceTypeOf true resource = DataCite.resourceTypeOf false resource := by
  unfold DataCite.resourceTypeOf
  unfold generalType? at hname
  cases hchild : resource.child? "resourceType" with
  | none => rfl
  | some e =>
    rw [hchild, Option.bind_some] at hname
    simp only [Option.bind_eq_bind, Option.bind_some, hname, Option.map_none]

/-- The kind of a resource with a general type is that of the type. -/
theorem resourceTypeOf_named {resource : Element} {name : String}
    (hname : generalType? resource = some name) :
    ∃ value, ∀ filmIsKnown, DataCite.resourceTypeOf filmIsKnown resource =
      some ⟨kindOf filmIsKnown name, value⟩ := by
  obtain ⟨e, hchild, hgeneral⟩ := Option.bind_eq_some_iff.mp hname
  refine ⟨e.content?, fun filmIsKnown => ?_⟩
  simp only [DataCite.resourceTypeOf, Option.bind_eq_bind, hchild, Option.bind_some, hgeneral,
    Option.isNone_some, Bool.false_and, Bool.false_eq_true, if_false, Option.map_some,
    Option.getD_some]

theorem resourceTypeOf_film {resource : Element} (hfilm : isFilm resource = true) :
    ∃ value, DataCite.resourceTypeOf true resource = some ⟨.audiovisual, value⟩ ∧
      DataCite.resourceTypeOf false resource = some ⟨.other, value⟩ := by
  cases hname : generalType? resource with
  | none =>
    rw [isFilm, hname] at hfilm
    cases hfilm
  | some name =>
    rw [isFilm, hname, Option.any_some] at hfilm
    obtain ⟨hknown, hunknown⟩ := kindOf_film hfilm
    obtain ⟨value, hvalue⟩ := resourceTypeOf_named hname
    exact ⟨value, by rw [hvalue, hknown], by rw [hvalue, hunknown]⟩

theorem resourceTypeOf_not_film {resource : Element} (hfilm : isFilm resource = false) :
    DataCite.resourceTypeOf true resource = DataCite.resourceTypeOf false resource := by
  cases hname : generalType? resource with
  | none => exact resourceTypeOf_unnamed hname
  | some name =>
    rw [isFilm, hname, Option.any_some] at hfilm
    obtain ⟨value, hvalue⟩ := resourceTypeOf_named hname
    rw [hvalue, hvalue, kindOf_not_film hfilm]

/-! The three documents of a record -/

/-- Kernel 3 parts the contributors of kernel 4 into funders and others. -/
theorem funders_parted (viewUrl : Option String) (metadata : Element) (d : Document) :
    (mapKernel3 viewUrl metadata d).contributors =
        (mapKernel4 viewUrl metadata d).contributors.filter (fun c => !isFunder c) ∧
      (mapKernel3 viewUrl metadata d).fundingReferences =
        ((mapKernel4 viewUrl metadata d).contributors.filter isFunder).map
          fundingOfContributor := by
  rw [mapKernel3, mapFunders_eq]
  exact ⟨rfl, rfl⟩

/-- A record with all that is needed has a document in each kernel. The documents agree in all
fields but five. Kernels 2 and 3 agree in contributors and funding as well, and kernels 3 and 4 in
rights and resource type. The type of a film is audiovisual in kernel 2 and other in kernel 3, and
any other type is the same in both. Kernels 2 and 3 leave the funders out of the contributors of
kernel 4, and have a funding reference for each of them, in this order. -/
theorem kernels_differ (context : Context) (r : Record) (metadata : Element)
    (hsome : r.identifier.isEmpty = false) (hpresent : r.deleted = false)
    (hmetadata : r.metadata = some metadata) :
    ∃ d2 d3 d4 : Document,
      (Crosswalk.mk (.bound .dataCite2) context).transform r = .ok (some d2) ∧
      (Crosswalk.mk (.bound .dataCite3) context).transform r = .ok (some d3) ∧
      (Crosswalk.mk (.bound .dataCite4) context).transform r = .ok (some d4) ∧
      shared d2 = shared d3 ∧ shared d3 = shared d4 ∧
      d2.contributors = d3.contributors ∧ d2.fundingReferences = d3.fundingReferences ∧
      d3.rights = d4.rights ∧ d3.resourceType = d4.resourceType ∧
      (isFilm (resourceOf metadata) = true →
        ∃ value, d2.resourceType = some ⟨.audiovisual, value⟩ ∧
          d3.resourceType = some ⟨.other, value⟩) ∧
      (isFilm (resourceOf metadata) = false → d2.resourceType = d3.resourceType) ∧
      d3.contributors =
        d4.contributors.filter (fun c => !Text.sameAscii c.contributorType "Funder") ∧
      d3.fundingReferences =
        (d4.contributors.filter fun c => Text.sameAscii c.contributorType "Funder").map fun c =>
          { funderName := c.person.name,
            funderIdentifier := c.person.nameIdentifiers.head?.map fun n =>
              { value := n.value, identifierType := n.scheme } } := by
  have hdocument (schema : Schema) : (Crosswalk.mk (.bound schema) context).transform r =
      .ok (some (schema.map context.viewUrl metadata (outline context r.header))) :=
    transform_full _ hsome hpresent hmetadata
  have hfunders := funders_parted context.viewUrl metadata (outline context r.header)
  refine ⟨_, _, _, hdocument .dataCite2, hdocument .dataCite3, hdocument .dataCite4, ?_, ?_, rfl,
    rfl, rfl, rfl, resourceTypeOf_film, resourceTypeOf_not_film, hfunders.1, hfunders.2⟩
  · exact shared_finish context.viewUrl rfl
  · exact shared_finish context.viewUrl rfl

/-! A film with a funder -/

def filmed : Element :=
  .mk "resource" none []
    [.element (.mk "contributors" none []
      [.element (.mk "contributor" none [⟨none, "contributorType", "FUNDER"⟩]
        [.element (.mk "contributorName" none [] [.text "Fund"]),
          .element (.mk "nameIdentifier" none [⟨none, "nameIdentifierScheme", "ISNI"⟩]
            [.text "0000"])]),
        .element (.mk "contributor" none [⟨none, "contributorType", "Editor"⟩]
          [.element (.mk "contributorName" none [] [.text "Ann"])])]),
    .element (.mk "resourceType" none [⟨none, "resourceTypeGeneral", "FILM"⟩] [.text "Short"])]

theorem contributors_filmed (context : Context) (header : Header) :
    (Schema.dataCite4.map context.viewUrl filmed (outline context header)).contributors =
      [⟨"FUNDER", { name := "Fund", nameIdentifiers := [{ value := "0000", scheme := "ISNI" }] }⟩,
        ⟨"Editor", { name := "Ann" }⟩] := by
  rfl

/-- The funder is a contributor in kernel 4 alone, and the film is one in kernel 2 alone. -/
theorem filmed_in_each_kernel :
    let context : Context := { repository := "R" }
    let r : Record := ⟨{ identifier := "a" }, some filmed⟩
    r.identifier.isEmpty = false ∧ r.deleted = false ∧ isFilm (resourceOf filmed) = true ∧
      ∃ d2 d3 d4 : Document,
        (Crosswalk.mk (.bound .dataCite2) context).transform r = .ok (some d2) ∧
        (Crosswalk.mk (.bound .dataCite3) context).transform r = .ok (some d3) ∧
        (Crosswalk.mk (.bound .dataCite4) context).transform r = .ok (some d4) ∧
        shared d2 = shared d4 ∧
        d2.resourceType.map ResourceType.general = some .audiovisual ∧
        d4.resourceType.map ResourceType.general = some .other ∧
        d2.contributors = [⟨"Editor", { name := "Ann" }⟩] ∧
        d2.fundingReferences =
          [{ funderName := "Fund", funderIdentifier := some ⟨"0000", some "ISNI"⟩ }] ∧
        d4.contributors.length = 2 := by
  intro context r
  have hfilm : isFilm (resourceOf filmed) = true := by rfl
  obtain ⟨d2, d3, d4, h2, h3, h4, h23, h34, hcontributors, hfunding, _, htype, hfilmed, _, hrest,
    hfunders⟩ := kernels_differ context r filmed rfl rfl rfl
  obtain ⟨value, htype2, htype3⟩ := hfilmed hfilm
  have hfull : (Crosswalk.mk (.bound .dataCite4) context).transform r =
      .ok (some (Schema.dataCite4.map context.viewUrl filmed (outline context r.header))) := rfl
  have hd4 : d4 = Schema.dataCite4.map context.viewUrl filmed (outline context r.header) := by
    simpa using h4.symm.trans hfull
  have hall := contributors_filmed context r.header
  rw [← hd4] at hall
  rw [hall] at hrest hfunders
  refine ⟨rfl, rfl, hfilm, d2, d3, d4, h2, h3, h4, h23.trans h34, ?_, ?_, ?_, ?_, ?_⟩
  · rw [htype2, Option.map_some]
  · rw [← htype, htype3, Option.map_some]
  · rw [hcontributors, hrest]
    rfl
  · rw [hfunding, hfunders]
    rfl
  · rw [hall]
    rfl

end Harvest.Kernels
