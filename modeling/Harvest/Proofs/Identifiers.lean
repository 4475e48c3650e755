import Harvest.Proofs.Selection
import Harvest.Proofs.Shape

/-!
The identifiers of a flat record. One of them is taken as that of the resource: the first DOI, or
the first URL of a record without DOIs. All others stay in their order beside it, so that none is
lost and none is there twice.
-/
namespace Harvest.Identifiers

open Xml Crosswalk DublinCore Selection

/-- How identifiers are split into that of the resource and the others. -/
inductive Splits : List String → Option Identifier → List Identifier → Prop
  | doi {before after : List String} {v : String} (hdoi : inferType v = some "DOI")
      (hfirst : ∀ u ∈ before, inferType u ≠ some "DOI") :
      Splits (before ++ v :: after) (some (typed v)) ((before ++ after).map typed)
  | url {before after : List String} {v : String} (hurl : inferType v = some "URL")
      (hfirst : ∀ u ∈ before, inferType u ≠ some "URL")
      (hnone : ∀ u ∈ before ++ v :: after, inferType u ≠ some "DOI") :
      Splits (before ++ v :: after) (some (typed v)) ((before ++ after).map typed)
  | neither {values : List String} (hnone : ∀ u ∈ values, inferType u = none) :
      Splits values none (values.map typed)

theorem inferType_cases (s : String) :
    inferType s = some "DOI" ∨ inferType s = some "URL" ∨ inferType s = none := by
  unfold inferType
  split
  · exact .inl rfl
  · split
    · exact .inr (.inl rfl)
    · exact .inr (.inr rfl)

/-! The place of the identifier of the resource -/

theorem findIdx?_middle {α : Type} {p : α → Bool} {before after : List α} {a : α}
    (hbefore : ∀ b ∈ before, p b = false) (ha : p a = true) :
    (before ++ a :: after).findIdx? p = some before.length := by
  rw [List.findIdx?_append, List.findIdx?_eq_none_iff.mpr hbefore, List.findIdx?_cons, if_pos ha]
  simp

theorem split_at_index {before after : List String} {v : String}
    (h : mainIndex? (before ++ v :: after) = some before.length) :
    splitIdentifiers (before ++ v :: after) =
      (some (typed v), (before ++ after).map typed) := by
  rw [splitIdentifiers_eq, h]
  simp [List.eraseIdx_append_of_length_le]

theorem split_of_splits {values : List String} {main : Option Identifier}
    {others : List Identifier} (h : Splits values main others) :
    splitIdentifiers values = (main, others) := by
  cases h with
  | @doi before after v hdoi hfirst =>
    have hbefore : ∀ u ∈ before, isDoi u = false := fun u hu => by simpa [isDoi] using hfirst u hu
    apply split_at_index
    rw [mainIndex?, findIdx?_middle hbefore (by simp [isDoi, hdoi]), Option.some_or]
  | @url before after v hurl hfirst hnone =>
    have hnot : ∀ u ∈ before ++ v :: after, isDoi u = false := fun u hu => by
      simpa [isDoi] using hnone u hu
    have hbefore : ∀ u ∈ before, (inferType u).isSome = false := by
      intro u hu
      rcases inferType_cases u with h | h | h
      · exact absurd h (hnone u (List.mem_append_left _ hu))
      · exact absurd h (hfirst u hu)
      · rw [h]; rfl
    apply split_at_index
    rw [mainIndex?, List.findIdx?_eq_none_iff.mpr hnot, Option.none_or,
      findIdx?_middle hbefore (by rw [hurl]; rfl)]
  | neither hnone =>
    have hindex : mainIndex? values = none := by
      rw [mainIndex?, List.findIdx?_eq_none_iff.mpr fun u hu => by simp [isDoi, hnone u hu],
        List.findIdx?_eq_none_iff.mpr fun u hu => by rw [hnone u hu]; rfl, Option.none_or]
    rw [splitIdentifiers_eq, hindex]

/-- Any identifiers can be split. -/
theorem splits_exist (values : List String) : ∃ main others, Splits values main others := by
  cases hdoi : values.find? fun v => inferType v == some "DOI" with
  | some v =>
    obtain ⟨hv, before, after, rfl, hbefore⟩ := List.find?_eq_some_iff_append.mp hdoi
    exact ⟨_, _, .doi (by simpa using hv) fun u hu => by simpa using hbefore u hu⟩
  | none =>
    have hnone : ∀ u ∈ values, inferType u ≠ some "DOI" := by
      simpa using List.find?_eq_none.mp hdoi
    cases hurl : values.find? fun v => inferType v == some "URL" with
    | some v =>
      obtain ⟨hv, before, after, rfl, hbefore⟩ := List.find?_eq_some_iff_append.mp hurl
      exact ⟨_, _, .url (by simpa using hv) (fun u hu => by simpa using hbefore u hu) hnone⟩
    | none =>
      have hother : ∀ u ∈ values, inferType u ≠ some "URL" := by
        simpa using List.find?_eq_none.mp hurl
      refine ⟨_, _, .neither fun u hu => ?_⟩
      rcases inferType_cases u with h | h | h
      · exact absurd h (hnone u hu)
      · exact absurd h (hother u hu)
      · exact h

theorem splits (values : List String) :
    Splits values (splitIdentifiers values).1 (splitIdentifiers values).2 := by
  obtain ⟨main, others, h⟩ := splits_exist values
  rw [split_of_splits h]
  exact h

/-! What is kept -/

/-- The identifiers are split, each text is there as often as before, and all types are those of
their texts. -/
structure Sorted (values : List String) (main : Option Identifier) (others : List Identifier) :
    Prop where
  splits : Splits values main others
  texts : ((main.toList ++ others).map (·.value)).Perm values
  types : ∀ i ∈ main.toList ++ others, i.identifierType = inferType i.value

section

variable {values : List String} {main : Option Identifier} {others : List Identifier}
  (h : Splits values main others)

include h

theorem Splits.perm : (main.toList ++ others).Perm (values.map typed) := by
  cases h with
  | doi hdoi hfirst =>
    rw [Option.toList_some, List.singleton_append, ← List.map_cons]
    exact List.perm_middle.symm.map typed
  | url hurl hfirst hnone =>
    rw [Option.toList_some, List.singleton_append, ← List.map_cons]
    exact List.perm_middle.symm.map typed
  | neither => exact .refl _

theorem Splits.sorted : Sorted values main others where
  splits := h
  texts := by simpa [Function.comp_def, typed] using h.perm.map (·.value)
  types := by
    intro i hi
    obtain ⟨v, _, rfl⟩ := List.mem_map.mp (h.perm.mem_iff.mp hi)
    rfl

/-- The identifier of the resource leads somewhere, if there is one. -/
theorem Splits.leads : (main.any fun i => Shape.leads i.identifierType) = main.isSome := by
  have hdoi : Shape.leads (some "DOI") = true := by decide
  have hurl : Shape.leads (some "URL") = true := by decide
  cases h with
  | doi htype hfirst => rw [Option.any_some, typed, htype, hdoi, Option.isSome_some]
  | url htype hfirst hnone => rw [Option.any_some, typed, htype, hurl, Option.isSome_some]
  | neither hnone => rfl

end

/-! The document of a record -/

theorem outline_viewLinks (context : Context) (header : Header) :
    ∀ link ∈ (outline context header).webLinks, link.linkType ≠ .viewUrl := by
  intro link hlink
  rw [Shape.outline_type hlink]
  exact nofun

/-- Only the link that is made at last leads to the resource. -/
theorem viewed_iff {viewUrl : Option String} {d : Document}
    (hnone : ∀ link ∈ d.webLinks, link.linkType ≠ .viewUrl) :
    (∃ link ∈ (addLinks viewUrl d).webLinks, link.linkType = .viewUrl) ↔
      (viewLink d.identifier d.resourceIdentifier viewUrl).isSome = true := by
  rw [Option.isSome_iff_exists]
  constructor
  · rintro ⟨link, hlink, htype⟩
    rw [addLinks, List.mem_append, List.mem_append] at hlink
    rcases hlink with (hlink | hlink) | hlink
    · exact absurd htype (hnone link hlink)
    · rw [Shape.relatedLinks_type hlink] at htype
      cases htype
    · exact ⟨link, Option.mem_toList.mp hlink⟩
  · rintro ⟨link, hlink⟩
    exact ⟨link, List.mem_append_right _ (Option.mem_toList.mpr hlink), Shape.viewLink_type hlink⟩

theorem map_viewed (viewUrl : Option String) (metadata : Element) {d : Document}
    (hnone : ∀ link ∈ d.webLinks, link.linkType ≠ .viewUrl) :
    (∃ link ∈ (DublinCore.map viewUrl metadata d).webLinks, link.linkType = .viewUrl) ↔
      (viewLink d.identifier (splitIdentifiers (metadata.childTexts "identifier")).1
        viewUrl).isSome = true := by
  rw [DublinCore.map]
  exact viewed_iff hnone

/-- Identifiers are split without loss. If any is a DOI or a URL, the first DOI, or the first URL if
there is no DOI, is that of the resource, and all others stay in their order; if none is, all stay.
The document of a record has the identifiers of its metadata so, and without a view URL it has a
link to the resource exactly if the resource has an identifier. -/
theorem identifiers_split :
    (∀ values : List String,
      Sorted values (splitIdentifiers values).1 (splitIdentifiers values).2) ∧
    ∀ (w : Crosswalk) (r : Record) (metadata : Element), r.identifier.isEmpty = false →
      r.deleted = false → r.metadata = some metadata → w.schemaFor r = .ok .dublinCore →
        ∃ d, w.transform r = .ok (some d) ∧
          Sorted (metadata.childTexts "identifier") d.resourceIdentifier
            d.alternateIdentifiers ∧
          (w.context.viewUrl = none →
            ((∃ link ∈ d.webLinks, link.linkType = .viewUrl) ↔
              d.resourceIdentifier.isSome = true)) := by
  refine ⟨fun values => (splits values).sorted, ?_⟩
  intro w r metadata hsome hpresent hmetadata hschema
  have hsplits := splits (metadata.childTexts "identifier")
  refine ⟨_, by rw [Answer.transform_full w hsome hpresent hmetadata, hschema]; rfl,
    hsplits.sorted, fun hview => ?_⟩
  refine (map_viewed w.context.viewUrl metadata (outline_viewLinks w.context r.header)).trans ?_
  rw [Shape.viewLink_isSome, hview, Option.isSome_none, Bool.false_or, hsplits.leads]
  exact Iff.rfl

/-! A record with a DOI behind a URL, and with a text that is there twice -/

def listed (texts : List String) : Record where
  header := { identifier := "a" }
  metadata := some (.mk "dc" none []
    (texts.map fun text => .element (.mk "identifier" none [] [.text text])))

def dublin : Crosswalk := { mapping := .bound .dublinCore, context := { repository := "R" } }

theorem listed_split : ∃ d,
    dublin.transform (listed ["b", "http://b.org", " doi:10.1/c", "b", "10.1/d"]) = .ok (some d) ∧
      d.resourceIdentifier = some ⟨"doi:10.1/c", some "DOI"⟩ ∧
      d.alternateIdentifiers =
        [⟨"b", none⟩, ⟨"http://b.org", some "URL"⟩, ⟨"b", none⟩, ⟨"10.1/d", some "DOI"⟩] ∧
      ∃ link ∈ d.webLinks, link.linkType = .viewUrl := by
  obtain ⟨d, hd, _, hview⟩ := identifiers_split.2 dublin
    (listed ["b", "http://b.org", " doi:10.1/c", "b", "10.1/d"]) _ (by decide) rfl rfl rfl
  have hmapped : ∃ doc,
      dublin.transform (listed ["b", "http://b.org", " doi:10.1/c", "b", "10.1/d"]) =
          .ok (some doc) ∧
        doc.resourceIdentifier = some ⟨"doi:10.1/c", some "DOI"⟩ ∧
        doc.alternateIdentifiers =
          [⟨"b", none⟩, ⟨"http://b.org", some "URL"⟩, ⟨"b", none⟩, ⟨"10.1/d", some "DOI"⟩] :=
    ⟨_, rfl, by rfl, by rfl⟩
  obtain ⟨doc, hdoc, hmain, hothers⟩ := hmapped
  have hsame : doc = d := by
    rw [hd] at hdoc
    cases hdoc
    rfl
  rw [hsame] at hmain hothers
  exact ⟨d, hd, hmain, hothers, (hview rfl).mpr (by rw [hmain]; rfl)⟩

end Harvest.Identifiers
