import Harvest.Crosswalk
import Harvest.Proofs.Blanks
import Harvest.Proofs.Reading

/-!
What a document takes from a record is tidy: no text is empty or has blanks at its ends. All texts
are read through a few helpers, each of which trims and then drops what is empty. On the way through
a mapper each stage keeps the document clean, whatever it puts into it.
-/
namespace Harvest.Tidiness

open Xml Crosswalk

/-- A text that holds something and has no blank at either end. -/
structure Tidy (s : String) : Prop where
  first : ∃ c, s.toList.head? = some c ∧ Text.isBlank c = false
  last : ∃ c, s.toList.getLast? = some c ∧ Text.isBlank c = false

instance (s : String) : Decidable (Tidy s) :=
  decidable_of_iff
    ((s.toList.head?.any fun c => !Text.isBlank c) = true ∧
      (s.toList.getLast?.any fun c => !Text.isBlank c) = true) <| by
    constructor
    · rintro ⟨hfirst, hlast⟩
      simp only [Option.any_eq_true, Bool.not_eq_eq_eq_not, Bool.not_true] at hfirst hlast
      exact ⟨hfirst, hlast⟩
    · rintro ⟨⟨c, hc, hfirst⟩, ⟨d, hd, hlast⟩⟩
      simp [hc, hd, hfirst, hlast]

/-- All of these texts are tidy. -/
def Neat (texts : List String) : Prop := ∀ s ∈ texts, Tidy s

@[simp] theorem neat_nil : Neat [] := by simp [Neat]

@[simp] theorem neat_cons {s : String} {texts : List String} :
    Neat (s :: texts) ↔ Tidy s ∧ Neat texts := by
  simp [Neat]

@[simp] theorem neat_append {texts more : List String} :
    Neat (texts ++ more) ↔ Neat texts ∧ Neat more := by
  simp only [Neat, List.mem_append]
  exact ⟨fun h => ⟨fun s hs => h s (Or.inl hs), fun s hs => h s (Or.inr hs)⟩,
    fun h s hs => hs.elim (h.1 s) (h.2 s)⟩

@[simp] theorem neat_toList {o : Option String} : Neat o.toList ↔ ∀ s, o = some s → Tidy s := by
  cases o with
  | none => simp
  | some t => simp

/-! Trimmed texts -/

theorem trimEnd_getLast? {s : List Char} {c : Char} (h : (Text.trimEnd s).getLast? = some c) :
    Text.isBlank c = false := by
  induction s with
  | nil => cases h
  | cons d rest ih =>
    cases hrest : Text.trimEnd rest with
    | nil =>
      cases hblank : Text.isBlank d with
      | true => simp [Text.trimEnd, hrest, hblank] at h
      | false =>
        simp only [Text.trimEnd, hrest, hblank, Bool.false_eq_true, if_false,
          List.getLast?_singleton, Option.some.injEq] at h
        rw [← h, hblank]
    | cons e kept =>
      rw [hrest] at ih
      simp only [Text.trimEnd, hrest, List.getLast?_cons_cons] at h
      exact ih h

theorem tidy_trimChars {s : List Char} (h : Text.trimChars s ≠ []) :
    Tidy (String.ofList (Text.trimChars s)) := by
  obtain ⟨c, rest, hkept⟩ := List.exists_cons_of_ne_nil h
  have hfirst := Blanks.trimStart_head? (Text.trimChars s) c
  rw [Blanks.trimStart_trimChars, hkept] at hfirst
  have hlast := List.getLast?_eq_some_getLast h
  constructor
  · exact ⟨c, by rw [String.toList_ofList, hkept, List.head?_cons], hfirst rfl⟩
  · exact ⟨_, by rw [String.toList_ofList, hlast], trimEnd_getLast? hlast⟩

theorem tidy_of_nonEmpty {s : List Char} {t : String}
    (h : Text.nonEmpty (String.ofList (Text.trimChars s)) = some t) : Tidy t := by
  unfold Text.nonEmpty at h
  split at h
  · cases h
  · rename_i hsome
    rw [← Option.some.inj h]
    refine tidy_trimChars fun hnil => hsome ?_
    rw [hnil]
    rfl

theorem trimEnd_of_getLast? {s : List Char} {c : Char} (hlast : s.getLast? = some c)
    (hblank : Text.isBlank c = false) : Text.trimEnd s = s := by
  induction s with
  | nil => rfl
  | cons d rest ih =>
    cases rest with
    | nil =>
      simp only [List.getLast?_singleton, Option.some.injEq] at hlast
      simp [Text.trimEnd, hlast, hblank]
    | cons e rest =>
      rw [List.getLast?_cons_cons] at hlast
      rw [Text.trimEnd, ih hlast]

/-- What is tidy already stays as it is. -/
theorem trim_of_tidy {s : String} (h : Tidy s) : Text.trim s = s := by
  obtain ⟨c, hc, hfirst⟩ := h.first
  obtain ⟨d, hd, hlast⟩ := h.last
  have hstart : Text.trimStart s.toList = s.toList := by
    apply Blanks.trimStart_of_head
    intro c' hc'
    rw [hc, Option.mem_some_iff] at hc'
    rw [← hc', hfirst]
  rw [Text.trim, Text.trimChars, hstart, trimEnd_of_getLast? hd hlast, String.ofList_toList]

/-! What an element is asked for -/

theorem tidy_content {s t : String} (h : Text.content s = some t) : Tidy t := tidy_of_nonEmpty h

theorem tidy_content? {e : Element} {s : String} (h : e.content? = some s) : Tidy s :=
  tidy_of_nonEmpty h

theorem tidy_childText? {tag : String} {e : Element} {s : String}
    (h : e.childText? tag = some s) : Tidy s := by
  obtain ⟨child, _, hchild⟩ := Option.bind_eq_some_iff.mp h
  exact tidy_content? hchild

theorem tidy_attributeText? {name : String} {e : Element} {s : String}
    (h : e.attributeText? name = some s) : Tidy s := by
  obtain ⟨value, _, hvalue⟩ := Option.bind_eq_some_iff.mp h
  exact tidy_content hvalue

theorem tidy_language? {e : Element} {s : String} (h : e.language? = some s) : Tidy s := by
  obtain ⟨value, _, hvalue⟩ := Option.bind_eq_some_iff.mp h
  exact tidy_content hvalue

theorem neat_contents (elements : List Element) : Neat (elements.filterMap Element.content?) := by
  intro s hs
  obtain ⟨e, _, he⟩ := List.mem_filterMap.mp hs
  exact tidy_content? he

theorem neat_childTexts (tag : String) (e : Element) : Neat (e.childTexts tag) := neat_contents _

/-- The text an element of the protocol begins with, if there is any. -/
theorem tidy_leadText {e : Element} {s : String} (h : Text.nonEmpty e.leadText = some s) :
    Tidy s := by
  unfold Element.leadText at h
  split at h
  · exact tidy_of_nonEmpty h
  · cases h

/-- Parts that are read out of elements have tidy texts if each of them has. -/
theorem neat_parts {α β : Type} {read : α → Option β} {texts : β → List String}
    (h : ∀ a b, read a = some b → Neat (texts b)) (items : List α) :
    ∀ b ∈ items.filterMap read, Neat (texts b) := by
  intro b hb
  obtain ⟨a, _, ha⟩ := List.mem_filterMap.mp hb
  exact h a b ha

theorem neat_attribute (name : String) (e : Element) : Neat (e.attributeText? name).toList :=
  neat_toList.mpr fun _ => tidy_attributeText?

theorem neat_language (e : Element) : Neat e.language?.toList :=
  neat_toList.mpr fun _ => tidy_language?

theorem neat_child (tag : String) (e : Element) : Neat (e.childText? tag).toList :=
  neat_toList.mpr fun _ => tidy_childText?

theorem neat_content (e : Element) : Neat e.content?.toList :=
  neat_toList.mpr fun _ => tidy_content?

theorem neat_flatMap {α : Type} {texts : α → List String} {items : List α}
    (h : ∀ a ∈ items, Neat (texts a)) : Neat (items.flatMap texts) := by
  intro s hs
  obtain ⟨a, ha, hmem⟩ := List.mem_flatMap.mp hs
  exact h a ha s hmem

/-! The texts in the parts of a document -/

def identifierTexts (i : Identifier) : List String := i.value :: i.identifierType.toList

def titleTexts (t : Title) : List String := t.value :: (t.titleType.toList ++ t.lang.toList)

def nameIdentifierTexts (n : NameIdentifier) : List String :=
  n.value :: (n.scheme.toList ++ n.schemeUri.toList)

def personTexts (p : Person) : List String :=
  p.name :: (p.nameType.toList ++ p.givenName.toList ++ p.familyName.toList ++
    p.nameIdentifiers.flatMap nameIdentifierTexts ++ p.affiliations)

def contributorTexts (c : Contributor) : List String := c.contributorType :: personTexts c.person

def dateValueTexts : DateValue → List String
  | .point value => [value]
  | .range start stop => start.toList ++ stop.toList

def dateTexts (d : DocumentDate) : List String := dateValueTexts d.date ++ d.information.toList

def descriptionTexts (d : Description) : List String :=
  d.value :: (d.descriptionType.toList ++ d.lang.toList)

def subjectTexts (s : Subject) : List String :=
  s.value :: (s.scheme.toList ++ s.schemeUri.toList ++ s.valueUri.toList ++ s.lang.toList)

def rightsTexts (r : Rights) : List String := r.value.toList ++ r.uri.toList ++ r.lang.toList

def relatedTexts (r : RelatedIdentifier) : List String :=
  r.value :: r.identifierType :: (r.relationType.toList ++ r.resourceTypeGeneral.toList)

def fundingTexts (f : FundingReference) : List String :=
  f.funderName :: (f.funderIdentifier.toList.flatMap identifierTexts ++ f.awardNumber.toList ++
    f.awardUri.toList ++ f.awardTitle.toList)

/-- Links that a record leads to, other than those made from the settings of the harvest. -/
def ofRecord (l : WebLink) : Bool := l.linkType == .related || l.linkType == .researchData

/-- A document without a blank value: its texts are tidy but for the name of the repository and the
links made from settings. A rights statement says something, a place is somewhere, a polygon has
points, and a year has four digits. -/
structure Clean (d : Document) : Prop where
  identifier : Tidy d.identifier
  resourceIdentifier : ∀ i, d.resourceIdentifier = some i → Neat (identifierTexts i)
  titles : ∀ t ∈ d.titles, Neat (titleTexts t)
  creators : ∀ p ∈ d.creators, Neat (personTexts p)
  contributors : ∀ c ∈ d.contributors, Neat (contributorTexts c)
  dates : ∀ t ∈ d.dates, Neat (dateTexts t)
  descriptions : ∀ t ∈ d.descriptions, Neat (descriptionTexts t)
  subjects : ∀ t ∈ d.subjects, Neat (subjectTexts t)
  rights : ∀ r ∈ d.rights, Neat (rightsTexts r) ∧ (r.value.isSome ∨ r.uri.isSome)
  relatedIdentifiers : ∀ r ∈ d.relatedIdentifiers, Neat (relatedTexts r)
  alternateIdentifiers : ∀ i ∈ d.alternateIdentifiers, Neat (identifierTexts i)
  geoLocations : ∀ g ∈ d.geoLocations,
    Neat g.place.toList ∧ g.isEmpty = false ∧ ∀ polygon ∈ g.polygons, polygon ≠ []
  fundingReferences : ∀ f ∈ d.fundingReferences, Neat (fundingTexts f)
  webLinks : ∀ l ∈ d.webLinks, ofRecord l = true → Tidy l.name ∧ Tidy l.url
  publisher : Neat d.publisher.toList
  language : Neat d.language.toList
  version : Neat d.version.toList
  resourceType : ∀ t, d.resourceType = some t → Neat t.value.toList
  publicationYear : ∀ y, d.publicationYear = some y → 0 ≤ y ∧ y ≤ 9999
  formats : Neat d.formats
  sizes : Neat d.sizes

/-! Dates and years -/

theorem tidy_rangeEnd {s : List Char} {t : String} (h : rangeEnd s = some t) : Tidy t :=
  tidy_of_nonEmpty h

theorem neat_readDate {s : String} (h : Tidy s) : Neat (dateValueTexts (readDate s)) := by
  have htrim : String.ofList (Text.trimChars s.toList) = s := trim_of_tidy h
  unfold readDate dateOfChars
  split
  · simp only [dateValueTexts, neat_append, neat_toList]
    exact ⟨fun _ => tidy_rangeEnd, fun _ => tidy_rangeEnd⟩
  · simpa [dateValueTexts, htrim] using h

theorem yearOfDigits_bounds {s : List Char} {y : Int} (h : yearOfDigits s = some y) :
    0 ≤ y ∧ y ≤ 9999 := by
  have hdigit {c : Char} (hc : c.isDigit = true) : c.toNat - 48 ≤ 9 := by
    simp only [Char.isDigit, Bool.and_eq_true, decide_eq_true_eq] at hc
    have hle : c.val.toNat ≤ 57 := UInt32.le_iff_toNat_le.mp hc.2
    simp only [Char.toNat]
    omega
  unfold yearOfDigits at h
  split at h
  · rename_i a b c d _
    split at h
    · rename_i hdigits
      simp only [Bool.and_eq_true] at hdigits
      obtain ⟨⟨⟨ha, hb⟩, hc⟩, hd⟩ := hdigits
      have ha := hdigit ha
      have hb := hdigit hb
      have hc := hdigit hc
      have hd := hdigit hd
      rw [← Option.some.inj h]
      omega
    · cases h
  · cases h

theorem yearOf_bounds {s : String} {y : Int} (h : yearOf s = some y) : 0 ≤ y ∧ y ≤ 9999 :=
  yearOfDigits_bounds h

theorem issuedYear_bounds {dates : List DocumentDate} {y : Int} (h : issuedYear dates = some y) :
    0 ≤ y ∧ y ≤ 9999 := by
  obtain ⟨d, _, hd⟩ := Option.bind_eq_some_iff.mp h
  unfold dateYear at hd
  split at hd
  · exact yearOf_bounds hd
  · obtain ⟨start, _, hstart⟩ := Option.bind_eq_some_iff.mp hd
    exact yearOf_bounds hstart

theorem Clean.fillYear {d : Document} (h : Clean d) : Clean (fillYear d) :=
  { h with
    publicationYear := fun y hy => by
      rcases Option.or_eq_some_iff.mp hy with hown | ⟨_, hissued⟩
      · exact h.publicationYear y hown
      · exact issuedYear_bounds hissued }

/-! Links -/

theorem tidy_append {s t : String} (hs : Tidy s) {rest : List Char} (ht : Tidy t)
    (hsuffix : rest <:+ t.toList) : Tidy (s ++ String.ofList rest) := by
  obtain ⟨c, hc, hfirst⟩ := hs.first
  obtain ⟨d, hd, hlast⟩ := hs.last
  obtain ⟨e, he, hlast'⟩ := ht.last
  constructor
  · refine ⟨c, ?_, hfirst⟩
    rw [String.toList_append, List.head?_append, hc, Option.some_or]
  · rw [String.toList_append, String.toList_ofList, List.getLast?_append]
    cases hrest : rest.getLast? with
    | none => exact ⟨d, by rw [Option.none_or, hd], hlast⟩
    | some f =>
      obtain ⟨before, hbefore⟩ := hsuffix
      have hsame : t.toList.getLast? = some f := by
        rw [← hbefore, List.getLast?_append, hrest, Option.some_or]
      rw [he, Option.some.injEq] at hsame
      exact ⟨f, rfl, hsame ▸ hlast'⟩

theorem tidy_doiUrl {doi : String} (h : Tidy doi) : Tidy (doiUrl doi) := by
  have hresolver : Tidy resolver := by decide
  simp only [doiUrl, trim_of_tidy h]
  split
  · exact h
  · refine tidy_append hresolver h ?_
    cases hbare : (Text.after? "doi:".toList doi.toList).or
      (Text.after? "DOI:".toList doi.toList) with
    | none => exact List.suffix_refl _
    | some rest =>
      rcases Option.or_eq_some_iff.mp hbare with hlow | ⟨_, hup⟩
      · exact ⟨_, (Reading.after?_eq hlow).symm⟩
      · exact ⟨_, (Reading.after?_eq hup).symm⟩

theorem tidy_identifierUrl {value url : String} {type : Option String} (hvalue : Tidy value)
    (h : identifierUrl value type = some url) : Tidy url := by
  unfold identifierUrl at h
  split at h
  · rw [← Option.some.inj h]
    exact tidy_doiUrl hvalue
  · rw [← Option.some.inj h, trim_of_tidy hvalue]
    exact hvalue
  · cases h

theorem tidy_relatedLink {r : RelatedIdentifier} {l : WebLink} (hr : Neat (relatedTexts r))
    (h : relatedLink r = some l) : Tidy l.name ∧ Tidy l.url := by
  obtain ⟨url, hurl, rfl⟩ := Option.map_eq_some_iff.mp h
  simp only [relatedTexts, neat_cons, neat_append, neat_toList] at hr
  obtain ⟨hvalue, _, hrelation, _⟩ := hr
  refine ⟨?_, tidy_identifierUrl hvalue hurl⟩
  cases hname : r.relationType with
  | none => exact (by decide : Tidy relatedName)
  | some name => exact hrelation name hname

theorem Clean.addLinks {d : Document} (h : Clean d) (viewUrl : Option String) :
    Clean (addLinks viewUrl d) :=
  { h with
    webLinks := fun l hl hof => by
      simp only [Crosswalk.addLinks, List.mem_append, Option.mem_toList] at hl
      rcases hl with (hold | hrelated) | hview
      · exact h.webLinks l hold hof
      · obtain ⟨r, hr, hlink⟩ := List.mem_filterMap.mp hrelated
        exact tidy_relatedLink (h.relatedIdentifiers r hr) hlink
      · obtain ⟨url, _, rfl⟩ := Option.map_eq_some_iff.mp hview
        cases hof }

/-! The header -/

structure CleanHeader (header : Header) : Prop where
  identifier : ∀ s, Text.nonEmpty header.identifier = some s → Tidy s
  datestamp : Neat header.datestamp.toList
  setSpecs : Neat header.setSpecs

theorem clean_header (e : Element) : CleanHeader (Record.ofElement e).header := by
  cases hheader : e.child? "header" with
  | none =>
    simp only [Record.ofElement, hheader]
    exact ⟨by simp [Text.nonEmpty], by simp, by simp⟩
  | some header =>
    simp only [Record.ofElement, hheader, Option.map_some, Option.getD_some, Header.ofElement]
    refine ⟨fun s hs => ?_, neat_toList.mpr fun s hs => ?_, fun s hs => ?_⟩
    · cases hchild : header.child? "identifier" with
      | none => simp [hchild, Text.nonEmpty] at hs
      | some child =>
        simp only [hchild, Option.map_some, Option.getD_some] at hs
        exact tidy_leadText hs
    · obtain ⟨child, _, hchild⟩ := Option.bind_eq_some_iff.mp hs
      exact tidy_leadText hchild
    · obtain ⟨child, _, hchild⟩ := List.mem_filterMap.mp hs
      exact tidy_leadText hchild

theorem CleanHeader.identifier_tidy {header : Header} (h : CleanHeader header)
    (hsome : header.identifier.isEmpty = false) : Tidy header.identifier :=
  h.identifier _ (by simp [Text.nonEmpty, hsome])

theorem clean_outline (context : Context) {header : Header} (h : CleanHeader header)
    (hsome : header.identifier.isEmpty = false) : Clean (outline context header) where
  identifier := h.identifier_tidy hsome
  subjects t ht := by
    obtain ⟨value, hvalue, rfl⟩ := List.mem_map.mp ht
    simpa [subjectTexts] using h.setSpecs value hvalue
  webLinks l hl hof := by
    obtain ⟨url, _, rfl⟩ := Option.map_eq_some_iff.mp (Option.mem_toList.mp hl)
    cases hof
  resourceIdentifier := by simp [outline]
  titles := by simp [outline]
  creators := by simp [outline]
  contributors := by simp [outline]
  dates := by simp [outline]
  descriptions := by simp [outline]
  rights := by simp [outline]
  relatedIdentifiers := by simp [outline]
  alternateIdentifiers := by simp [outline]
  geoLocations := by simp [outline]
  fundingReferences := by simp [outline]
  publisher := by simp [outline]
  language := by simp [outline]
  version := by simp [outline]
  resourceType := by simp [outline]
  publicationYear := by simp [outline]
  formats := by simp [outline]
  sizes := by simp [outline]

end Harvest.Tidiness
