import Harvest.Proofs.Blanks
import Harvest.Proofs.LetterCase
import Harvest.Proofs.Reading
import Harvest.Proofs.Shape

/-!
Where DOIs lead. A DOI is recognized bare, behind the label `doi:` in any case, and behind the name
of the resolver without a scheme. Not all of these are taken off again when the address is made, so
that some of the recognized texts lead to an address with the label inside.
-/
namespace Harvest.Resolution

open Text Crosswalk Blanks

/-- A DOI by itself. It begins with the number of the directory and has no blank in it. -/
structure IsDoi (d : String) : Prop where
  start : "10.".toList <+: d.toList
  solid : ∀ c ∈ d.toList, isBlank c = false

/-- What may stand before a DOI without making an address of it. -/
inductive Label : String → Prop
  | bare : Label ""
  | named {p : String} (hname : sameAscii p "doi:" = true) : Label p
  | host : Label "doi.org/"

/-- The labels that are taken off when the address is made. -/
def removed : List String := ["", "doi:", "DOI:"]

def destination (p d : String) : String :=
  if p ∈ removed then resolver ++ d else resolver ++ p ++ d

/-! Labels and DOIs by themselves -/

theorem named_lower {p : String} (hname : sameAscii p "doi:" = true) :
    lower p.toList = "doi:".toList := by
  rw [← LetterCase.lower_map_toLower, eq_of_beq hname]
  decide

theorem named_length {p : String} (hname : sameAscii p "doi:" = true) : p.toList.length = 4 := by
  simpa using congrArg List.length (eq_of_beq hname)

theorem Label.solid {p : String} (hlabel : Label p) : ∀ c ∈ p.toList, isBlank c = false := by
  cases hlabel with
  | bare => exact solid_of_all (by decide)
  | named hname =>
    intro c hc
    have hlow : c.toLower ∈ p.toList.map Char.toLower := List.mem_map_of_mem hc
    rw [eq_of_beq hname] at hlow
    have hall : ∀ e ∈ "doi:".toList.map Char.toLower, isBlank e = false :=
      solid_of_all (by decide)
    rw [← LetterCase.isBlank_toLower]
    exact hall _ hlow
  | host => exact solid_of_all (by decide)

theorem IsDoi.chars {d : String} (hdoi : IsDoi d) :
    ∃ rest, d.toList = '1' :: '0' :: '.' :: rest := by
  obtain ⟨rest, hrest⟩ := hdoi.start
  exact ⟨rest, hrest.symm⟩

/-- A mark that begins with another character is not found before a DOI. -/
theorem IsDoi.after?_eq_none {d : String} (hdoi : IsDoi d) {m : Char} (hm : m ≠ '1')
    (mark : List Char) : after? (m :: mark) d.toList = none := by
  obtain ⟨rest, hd⟩ := hdoi.chars
  simp [after?, hd, hm]

/-- A mark as long as the first part of a text is found if it is that part. -/
theorem after?_of_length {mark s : List Char} (h : s.length = mark.length) (t : List Char) :
    after? mark (s ++ t) = if s = mark then some t else none := by
  rw [after?, Reading.isPrefixOf_append (Nat.le_of_eq h.symm)]
  by_cases hs : s = mark
  · subst hs
    simp
  · have hnot : mark.isPrefixOf s = false := by
      rw [Bool.eq_false_iff, ne_eq, List.isPrefixOf_iff_prefix]
      exact fun hmark => hs (hmark.eq_of_length h.symm).symm
    simp [hs, hnot]

/-! Labelled texts -/

section

variable {p d : String} (hlabel : Label p) (hdoi : IsDoi d)

include hlabel hdoi

theorem labelled_solid : ∀ c ∈ (p ++ d).toList, isBlank c = false := by
  intro c hc
  rw [String.toList_append, List.mem_append] at hc
  rcases hc with hc | hc
  · exact hlabel.solid c hc
  · exact hdoi.solid c hc

theorem trim_labelled : trim (p ++ d) = p ++ d := by
  rw [trim, trimChars_of_solid (labelled_solid hlabel hdoi), String.ofList_toList]

/-- No labelled DOI begins like a scheme. -/
theorem lower_labelled : ∃ c t, lower (p ++ d).toList = c :: t ∧ c ≠ 'h' := by
  rw [String.toList_append, lower, List.flatMap_append]
  cases hlabel with
  | bare =>
    obtain ⟨rest, hd⟩ := hdoi.chars
    exact ⟨'1', _, by rw [hd]; rfl, by decide⟩
  | named hname => exact ⟨'d', _, by rw [← lower, named_lower hname]; rfl, by decide⟩
  | host => exact ⟨'d', _, rfl, by decide⟩

theorem isAbsoluteUrl_labelled : isAbsoluteUrl (p ++ d) = false := by
  obtain ⟨c, t, hlower, hc⟩ := lower_labelled hlabel hdoi
  rw [isAbsoluteUrl, trimStart_of_solid (labelled_solid hlabel hdoi), hlower]
  simp [startsWith, List.isPrefixOf, Ne.symm hc]

theorem inferType_labelled : inferType (p ++ d) = some "DOI" := by
  have hdoi' : (looksLikeDoi (p ++ d) || holds (p ++ d).toList "doi.org/10.".toList) = true := by
    rw [looksLikeDoi, trimChars_of_solid (labelled_solid hlabel hdoi), String.toList_append]
    obtain ⟨rest, hd⟩ := hdoi.chars
    cases hlabel with
    | bare => simp [startsWith, hd]
    | named hname =>
      rw [lower, List.flatMap_append, ← lower, named_lower hname]
      simp [startsWith]
    | host => simp [holds, cutAt, hd]
  rw [inferType, hdoi', if_pos rfl]

/-- What is left of a labelled DOI when the labels known to the resolver are taken off. -/
theorem removed_labelled :
    ((after? "doi:".toList (p ++ d).toList).or (after? "DOI:".toList (p ++ d).toList)).getD
      (p ++ d).toList = if p ∈ removed then d.toList else (p ++ d).toList := by
  rw [String.toList_append]
  cases hlabel with
  | bare =>
    have hlow := hdoi.after?_eq_none (m := 'd') (by decide) ['o', 'i', ':']
    have hup := hdoi.after?_eq_none (m := 'D') (by decide) ['O', 'I', ':']
    simp [hlow, hup, removed]
  | named hname =>
    have hlength := named_length hname
    have hsome : p ≠ "" := fun hnone => by simp [hnone] at hlength
    rw [after?_of_length (by simp [hlength]), after?_of_length (by simp [hlength])]
    simp only [removed, List.mem_cons, hsome, String.toList_inj, false_or, List.not_mem_nil,
      or_false]
    by_cases hlow : p = "doi:"
    · simp [hlow]
    · by_cases hup : p = "DOI:"
      · simp [hup]
      · simp [hlow, hup]
  | host => simp [after?, removed]

theorem doiUrl_labelled : doiUrl (p ++ d) = destination p d := by
  simp only [doiUrl, trim_labelled hlabel hdoi, isAbsoluteUrl_labelled hlabel hdoi,
    Bool.false_eq_true, if_false]
  rw [removed_labelled hlabel hdoi, destination]
  split
  · rw [String.ofList_toList]
  · rw [String.ofList_toList, String.append_assoc]

theorem identifierUrl_labelled : identifierUrl (p ++ d) (some "DOI") = some (destination p d) := by
  rw [← doiUrl_labelled hlabel hdoi]
  rfl

end

theorem destination_eq_iff (p d : String) : destination p d = resolver ++ d ↔ p ∈ removed := by
  rw [destination]
  split
  · next hmem => exact ⟨fun _ => hmem, fun _ => rfl⟩
  · next hmem =>
    refine ⟨fun h => ?_, fun h => absurd h hmem⟩
    have hlength := congrArg String.length h
    simp only [String.length_append] at hlength
    have hnone : p = "" := String.length_eq_zero_iff.mp (by omega)
    exact absurd (hnone ▸ List.mem_cons_self : p ∈ removed) hmem

/-! The links of a document -/

section

variable {w : Crosswalk} {r : Record} {doc : Document} {url : String}

/-- A document with identifiers of its resource is that of a record which was mapped, and its links
were made at last. -/
theorem addLinks_of_document (h : w.transform r = .ok (some doc))
    (hown : doc.resourceIdentifier.isSome ∨ doc.relatedIdentifiers ≠ []) :
    ∃ filled, doc = addLinks w.context.viewUrl filled := by
  cases hdeleted : r.deleted with
  | true =>
    obtain ⟨_, rfl⟩ := Answer.tombstone_of_document w hdeleted h
    simp [Document.tombstone] at hown
  | false =>
    obtain ⟨_, metadata, schema, _, _, rfl⟩ := Answer.mapped_of_document w hdeleted h
    obtain ⟨filled, data, _, _, hdoc⟩ :=
      Shape.map_fills schema w.context.viewUrl metadata (outline w.context r.header)
    exact ⟨_, hdoc⟩

theorem view_of_document (h : w.transform r = .ok (some doc)) {i : Identifier}
    (hi : doc.resourceIdentifier = some i) (hview : w.context.viewUrl = none)
    (hurl : identifierUrl i.value i.identifierType = some url) :
    doc.webLinks.getLast? = some { name := viewName, url, linkType := .viewUrl } := by
  obtain ⟨filled, rfl⟩ := addLinks_of_document h (.inl (by simp [hi]))
  have hlink : viewLink filled.identifier filled.resourceIdentifier w.context.viewUrl =
      some { name := viewName, url, linkType := .viewUrl } := by
    rw [show filled.resourceIdentifier = some i from hi, hview]
    simp [viewLink, hurl]
  simp [addLinks, hlink]

theorem related_of_document (h : w.transform r = .ok (some doc)) {related : RelatedIdentifier}
    (hrelated : related ∈ doc.relatedIdentifiers)
    (hurl : identifierUrl related.value (some related.identifierType) = some url) :
    { name := related.relationType.getD relatedName, url, linkType := .related } ∈
      doc.webLinks := by
  obtain ⟨filled, rfl⟩ := addLinks_of_document h (.inr (List.ne_nil_of_mem hrelated))
  have hlink : { name := related.relationType.getD relatedName, url, linkType := .related } ∈
      relatedLinks filled.relatedIdentifiers :=
    List.mem_filterMap.mpr ⟨related, hrelated, by rw [relatedLink, hurl, Option.map_some]⟩
  simp [addLinks, hlink]

end

/-- A labelled DOI is recognized as one, and leads to the address of the resolver with the DOI
behind it exactly if its label is taken off. Any other label stays in the address. A document whose
resource is identified so, or is related to one, has a link there. -/
theorem labelled_doi_leads {p d : String} (hlabel : Label p) (hdoi : IsDoi d) :
    inferType (p ++ d) = some "DOI" ∧
    identifierUrl (p ++ d) (some "DOI") = some (destination p d) ∧
    (identifierUrl (p ++ d) (some "DOI") = some (resolver ++ d) ↔ p ∈ removed) ∧
    ∀ (w : Crosswalk) (r : Record) (doc : Document), w.transform r = .ok (some doc) →
      (doc.resourceIdentifier = some { value := p ++ d, identifierType := inferType (p ++ d) } →
        w.context.viewUrl = none →
        doc.webLinks.getLast? =
          some { name := viewName, url := destination p d, linkType := .viewUrl }) ∧
      ∀ related ∈ doc.relatedIdentifiers,
        related.value = p ++ d → some related.identifierType = inferType (p ++ d) →
        { name := related.relationType.getD relatedName, url := destination p d,
          linkType := .related } ∈ doc.webLinks := by
  have htype := inferType_labelled hlabel hdoi
  have hurl := identifierUrl_labelled hlabel hdoi
  refine ⟨htype, hurl, ?_, fun w r doc hdoc =>
    ⟨fun hi hview => ?_, fun related hmem hvalue ht => ?_⟩⟩
  · rw [hurl, Option.some.injEq, destination_eq_iff]
  · rw [htype] at hi
    exact view_of_document hdoc hi hview hurl
  · rw [htype] at ht
    exact related_of_document hdoc hmem (by rw [hvalue, ht, hurl])

/-! A record that gives a labelled DOI -/

def titled (tag text : String) : Xml.Node := .element (.mk tag none [] [.text text])

def cited (p d : String) : Record where
  header := { identifier := "a" }
  metadata := some (.mk "dc" none [] [titled "identifier" (p ++ d), titled "relation" (p ++ d)])

def dublin : Crosswalk := { mapping := .bound .dublinCore, context := { repository := "R" } }

theorem named_doi_leads :
    identifierUrl "doi:10.1/a" (some "DOI") = some "https://doi.org/10.1/a" ∧
    ∃ doc, dublin.transform (cited "doi:" "10.1/a") = .ok (some doc) ∧
      doc.webLinks.getLast? =
        some { name := viewName, url := "https://doi.org/10.1/a", linkType := .viewUrl } := by
  have hlabel : Label "doi:" := .named (by decide)
  have hdoi : IsDoi "10.1/a" := ⟨by decide, solid_of_all (by decide)⟩
  obtain ⟨_, hurl, _, hlinks⟩ := labelled_doi_leads hlabel hdoi
  have hdoc : ∃ doc, dublin.transform (cited "doi:" "10.1/a") = .ok (some doc) ∧
      doc.resourceIdentifier =
        some { value := "doi:10.1/a", identifierType := inferType "doi:10.1/a" } :=
    ⟨_, rfl, rfl⟩
  obtain ⟨doc, hdoc, hi⟩ := hdoc
  exact ⟨hurl, doc, hdoc, (hlinks dublin _ doc hdoc).1 hi rfl⟩

/-- Not every DOI that is recognized leads to its address. -/
theorem capitalized_label_stays :
    ¬ ∀ p d : String, Label p → IsDoi d → inferType (p ++ d) = some "DOI" →
      identifierUrl (p ++ d) (some "DOI") = some (resolver ++ d) := by
  intro hall
  have hlabel : Label "Doi:" := .named (by decide)
  have hdoi : IsDoi "10.1/a" := ⟨by decide, solid_of_all (by decide)⟩
  have hurl := hall "Doi:" "10.1/a" hlabel hdoi (inferType_labelled hlabel hdoi)
  rw [identifierUrl_labelled hlabel hdoi, Option.some.injEq, destination_eq_iff] at hurl
  exact absurd hurl (by decide)

end Harvest.Resolution
