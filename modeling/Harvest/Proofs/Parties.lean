import Harvest.Proofs.Answer
import Harvest.Proofs.Citation
import Mathlib.Data.List.Forall2

/-!
Where the responsible parties of a citation go. What becomes of a party depends on those before it,
since only the first one that publishes is the publisher. In the end every party with a name has one
place in the document, as a creator, as a contributor or as the publisher, and the parties without a
name have none.
-/
namespace Harvest.Parties

open Xml Crosswalk Iso19139

/-! What is said of a party -/

def roleOf (e : Element) : Option String := (e.descendant? "CI_RoleCode").bind codeAttribute

def individual (e : Element) : Option String := e.childText? "individualName"

def organisation (e : Element) : Option String := e.childText? "organisationName"

def isNamed (e : Element) : Bool := (individual e).isSome || (organisation e).isSome

/-- A party without a role creates, and one with the role of a creator. -/
def creates (role : Option String) : Bool := role.all creatorRoles.contains

def publishes (role : Option String) : Bool := role == some "publisher"

/-- The organisation of a person is its affiliation. That of a party without a person is its name.
-/
def affiliationsOf (e : Element) : List String :=
  if (individual e).isSome then (organisation e).toList else []

/-- The person has the name of the party and its affiliation, and nothing else. -/
structure Describes (e : Element) (p : Person) : Prop where
  name : (individual e).or (organisation e) = some p.name
  eq : p = { name := p.name, affiliations := affiliationsOf e }

/-! The parties of a citation by what becomes of them, in document order -/

def namedIn (citation : Element) : List Element :=
  (citation.descendants "CI_ResponsibleParty").filter isNamed

def creatorsIn (citation : Element) : List Element :=
  (namedIn citation).filter fun e => creates (roleOf e)

def publisherIn (citation : Element) : Option Element :=
  (namedIn citation).find? fun e => publishes (roleOf e)

/-- All that are no creators, without the first that publishes. -/
def contributorsIn (citation : Element) : List Element :=
  ((namedIn citation).filter fun e => !creates (roleOf e)).eraseP fun e => publishes (roleOf e)

/-- The document has each party of the citation that has a name in one place. Parties that are alike
count one by one. -/
structure Apportioned (citation : Element) (d : Document) : Prop where
  creators : List.Forall₂ Describes (creatorsIn citation) d.creators
  publisher : d.publisher =
    (publisherIn citation).bind fun e => (individual e).or (organisation e)
  contributors : List.Forall₂
    (fun e c => roleOf e = some c.contributorType ∧ Describes e c.person)
    (contributorsIn citation) d.contributors
  once : (creatorsIn citation ++ ((publisherIn citation).toList ++ contributorsIn citation)).Perm
    (namedIn citation)
  count : d.creators.length + d.contributors.length + (if d.publisher.isSome then 1 else 0) =
    (citation.descendants "CI_ResponsibleParty").countP isNamed
  affiliations : (d.creators ++ d.contributors.map (·.person)).flatMap (·.affiliations) =
    ((creatorsIn citation ++ contributorsIn citation).filter fun e =>
      (individual e).isSome).filterMap organisation

/-- No party has a place yet. -/
structure Vacant (d : Document) : Prop where
  creators : d.creators = []
  contributors : d.contributors = []
  publisher : d.publisher = none

/-! One party -/

theorem not_creates_of_publishes {role : Option String} (h : publishes role = true) :
    creates role = false := by
  rw [publishes, beq_iff_eq] at h
  rw [h]
  decide

/-- A party as a contributor. Only parties with a role are contributors. -/
def asContributor (p : Party) : Contributor :=
  { contributorType := p.role.getD "", person := p.person }

theorem addParty_creating (d : Document) {p : Party} (h : creates p.role = true) :
    addParty d p = { d with creators := d.creators ++ [p.person] } := by
  unfold addParty
  cases hrole : p.role with
  | none => rfl
  | some role =>
    rw [hrole, creates, Option.all_some] at h
    simp only [h, if_true]
    rfl

theorem addParty_publishing {d : Document} {p : Party} (h : publishes p.role = true)
    (hnone : d.publisher = none) : addParty d p = { d with publisher := some p.person.name } := by
  rw [publishes, beq_iff_eq] at h
  have hother : creatorRoles.contains "publisher" = false := by decide
  simp only [addParty, h, hother, hnone, Bool.false_eq_true, if_false, BEq.rfl,
    Option.isNone_none, Bool.and_self, if_true]

theorem addParty_contributing {d : Document} {p : Party} (hcreates : creates p.role = false)
    (h : publishes p.role = false ∨ d.publisher.isSome = true) :
    addParty d p = { d with contributors := d.contributors ++ [asContributor p] } := by
  unfold addParty
  cases hrole : p.role with
  | none =>
    rw [hrole] at hcreates
    cases hcreates
  | some role =>
    rw [hrole, creates, Option.all_some] at hcreates
    have hnot : (role == "publisher" && d.publisher.isNone) = false := by
      rcases h with h | h
      · have hother : (role == "publisher") = false := by simpa [hrole, publishes] using h
        rw [hother, Bool.false_and]
      · rw [Option.isNone_eq_false_iff.mpr h, Bool.and_false]
    simp only [hcreates, hnot, Bool.false_eq_true, if_false, addContributor, asContributor, hrole,
      Option.getD_some]

/-! All parties, one after the other -/

/-- Once there is a publisher, all that are no creators are contributors. Before, the first that
publishes is not. -/
def contributing (published : Bool) (parties : List Party) : List Party :=
  let others := parties.filter fun p => !creates p.role
  if published then others else others.eraseP fun p => publishes p.role

section

variable {p : Party} {parties : List Party} {published : Bool}

theorem contributing_creating (h : creates p.role = true) :
    contributing published (p :: parties) = contributing published parties := by
  simp only [contributing, h, Bool.not_true, Bool.false_eq_true, not_false_eq_true,
    List.filter_cons_of_neg]

theorem contributing_publishing (h : publishes p.role = true) :
    contributing false (p :: parties) = contributing true parties := by
  simp [contributing, not_creates_of_publishes h, h]

theorem contributing_cons (hcreates : creates p.role = false)
    (h : publishes p.role = false ∨ published = true) :
    contributing published (p :: parties) = p :: contributing published parties := by
  rcases h with h | h
  · cases published <;> simp [contributing, hcreates, h]
  · simp [contributing, hcreates, h]

end

theorem foldl_addParty (parties : List Party) (d : Document) :
    parties.foldl addParty d = { d with
      creators := d.creators ++ (parties.filter fun p => creates p.role).map (·.person),
      contributors := d.contributors ++
        (contributing d.publisher.isSome parties).map asContributor,
      publisher := d.publisher.or
        ((parties.find? fun p => publishes p.role).map (·.person.name)) } := by
  -- The document changes with every party, and with it whether there is a publisher.
  induction parties generalizing d with
  | nil => simp [contributing]
  | cons p parties ih =>
    rw [List.foldl_cons, ih]
    cases hcreates : creates p.role with
    | true =>
      have hnot : publishes p.role = false :=
        Bool.eq_false_iff.mpr fun h => by simp [not_creates_of_publishes h] at hcreates
      rw [addParty_creating d hcreates, contributing_creating hcreates]
      simp [hcreates, hnot]
    | false =>
      by_cases hfirst : publishes p.role = true ∧ d.publisher = none
      · obtain ⟨hpublishes, hnone⟩ := hfirst
        rw [addParty_publishing hpublishes hnone, hnone, Option.isSome_none,
          contributing_publishing hpublishes]
        simp [hcreates, hpublishes]
      · have hother : publishes p.role = false ∨ d.publisher.isSome = true := by
          cases hpublisher : d.publisher with
          | none => exact .inl (by simpa [hpublisher] using hfirst)
          | some name => exact .inr rfl
        have hpublisher : d.publisher.or
            (((p :: parties).find? fun p => publishes p.role).map (·.person.name)) =
            d.publisher.or ((parties.find? fun p => publishes p.role).map (·.person.name)) := by
          rcases hother with h | h
          · rw [List.find?_cons_of_neg (by simp [h])]
          · rw [Option.or_of_isSome h, Option.or_of_isSome h]
        rw [addParty_contributing hcreates hother, contributing_cons hcreates hother, hpublisher]
        simp [hcreates]

/-! The parties of a citation -/

/-- The person that a party stands for, if the party has a name. -/
def personOf (e : Element) : Person :=
  { name := ((individual e).or (organisation e)).getD "", affiliations := affiliationsOf e }

def partyAt (e : Element) : Party := { person := personOf e, role := roleOf e }

theorem partyOf_eq (e : Element) : partyOf e = if isNamed e then some (partyAt e) else none := by
  unfold partyOf
  cases hindividual : e.childText? "individualName" with
  | some name => simp [isNamed, individual, hindividual, partyAt, personOf, affiliationsOf,
      organisation, roleOf]
  | none =>
    cases horganisation : e.childText? "organisationName" with
    | some name => simp [isNamed, individual, organisation, hindividual, horganisation, partyAt,
        personOf, affiliationsOf, roleOf]
    | none => simp [isNamed, individual, organisation, hindividual, horganisation]

theorem partiesOf_eq (citation : Element) :
    partiesOf citation = (namedIn citation).map partyAt := by
  rw [partiesOf, namedIn, ← List.filterMap_eq_map, List.filterMap_filter]
  exact List.filterMap_congr fun e _ => partyOf_eq e

theorem describes_of_named {e : Element} (h : isNamed e = true) : Describes e (personOf e) := by
  refine ⟨?_, rfl⟩
  have hsome : ((individual e).or (organisation e)).isSome = true := by
    rw [Option.isSome_or]
    exact h
  obtain ⟨name, hname⟩ := Option.isSome_iff_exists.mp hsome
  simp [personOf, hname]

theorem creatorsIn_sublist (citation : Element) :
    (creatorsIn citation).Sublist (namedIn citation) := List.filter_sublist

theorem contributorsIn_sublist (citation : Element) :
    (contributorsIn citation).Sublist (namedIn citation) :=
  List.eraseP_sublist.trans List.filter_sublist

theorem named_of_mem {citation e : Element} (h : e ∈ namedIn citation) : isNamed e = true :=
  (List.mem_filter.mp h).2

/-- A contributor has a role, since a party without one creates. -/
theorem role_of_contributor {citation e : Element} (h : e ∈ contributorsIn citation) :
    roleOf e = some ((roleOf e).getD "") := by
  have hother : creates (roleOf e) = false := by
    simpa using (List.mem_filter.mp (List.mem_of_mem_eraseP h)).2
  cases hrole : roleOf e with
  | none =>
    rw [hrole] at hother
    cases hother
  | some role => rfl

/-- The first that has a property, and the others, are all of them. -/
theorem find?_append_eraseP {α : Type} (q : α → Bool) (l : List α) :
    ((l.find? q).toList ++ l.eraseP q).Perm l := by
  induction l with
  | nil => exact .nil
  | cons a l ih =>
    cases ha : q a with
    | true => simp [ha]
    | false =>
      rw [List.find?_cons_of_neg (by simp [ha]), List.eraseP_cons_of_neg (by simp [ha])]
      exact List.perm_middle.trans (ih.cons a)

theorem publisherIn_eq (citation : Element) : publisherIn citation =
    ((namedIn citation).filter fun e => !creates (roleOf e)).find? fun e =>
      publishes (roleOf e) := by
  rw [List.find?_filter, publisherIn]
  congr 1
  funext e
  cases hpublishes : publishes (roleOf e) with
  | true => simp [not_creates_of_publishes hpublishes]
  | false => simp

theorem parted_once (citation : Element) :
    (creatorsIn citation ++ ((publisherIn citation).toList ++ contributorsIn citation)).Perm
      (namedIn citation) := by
  rw [publisherIn_eq]
  exact ((find?_append_eraseP _ _).append_left _).trans (List.filter_append_perm _ _)

theorem affiliations_of_persons (parties : List Element) :
    (parties.map personOf).flatMap (·.affiliations) =
      (parties.filter fun e => (individual e).isSome).filterMap organisation := by
  rw [List.filterMap_filter, List.filterMap_eq_flatMap_toList, List.flatMap_map]
  congr 1
  funext e
  simp only [personOf, affiliationsOf]
  split
  · rfl
  · rfl

theorem mapCitation_apportioned (citation : Element) {d : Document} (hd : Vacant d) :
    Apportioned citation (mapCitation citation d) := by
  have hcreators : (mapCitation citation d).creators = (creatorsIn citation).map personOf := by
    simp [mapCitation, foldl_addParty, partiesOf_eq, hd.creators, creatorsIn, List.filter_map,
      Function.comp_def, partyAt]
  have hcontributors : (mapCitation citation d).contributors =
      (contributorsIn citation).map fun e => asContributor (partyAt e) := by
    simp [mapCitation, foldl_addParty, partiesOf_eq, hd.contributors, hd.publisher, contributing,
      contributorsIn, List.filter_map, List.eraseP_map, Function.comp_def, partyAt]
  have hpublisher : (mapCitation citation d).publisher =
      (publisherIn citation).map fun e => (personOf e).name := by
    simp [mapCitation, foldl_addParty, partiesOf_eq, hd.publisher, publisherIn, List.find?_map,
      Function.comp_def, partyAt]
  have hnamed (e : Element) (he : publisherIn citation = some e) : Describes e (personOf e) :=
    describes_of_named (named_of_mem (List.mem_of_find?_eq_some he))
  exact {
    creators := by
      rw [hcreators, List.forall₂_map_right_iff, List.forall₂_same]
      exact fun e he => describes_of_named (named_of_mem ((creatorsIn_sublist citation).subset he))
    publisher := by
      rw [hpublisher]
      cases hfirst : publisherIn citation with
      | none => rfl
      | some e => exact (hnamed e hfirst).name.symm
    contributors := by
      rw [hcontributors, List.forall₂_map_right_iff, List.forall₂_same]
      exact fun e he => ⟨role_of_contributor he,
        describes_of_named (named_of_mem ((contributorsIn_sublist citation).subset he))⟩
    once := parted_once citation
    count := by
      have hall := (parted_once citation).length_eq
      have hone : (publisherIn citation).toList.length =
          if (mapCitation citation d).publisher.isSome then 1 else 0 := by
        rw [hpublisher, Option.isSome_map]
        cases publisherIn citation with
        | none => rfl
        | some e => rfl
      rw [List.countP_eq_length_filter, ← namedIn, ← hall, hcreators, hcontributors, ← hone]
      simp only [List.length_append, List.length_map]
      omega
    affiliations := by
      rw [hcreators, hcontributors, List.map_map]
      rw [← affiliations_of_persons, List.map_append]
      rfl }

/-! The parties of a document -/

/-- The citation of a metadata record, if it has one. -/
def citationIn (metadata : Element) : Option Element :=
  ((metadata.child? "identificationInfo").bind fun i => i.children.head?).bind fun i =>
    i.descendant? "CI_Citation"

/-- What of a document the parties go to. -/
structure SameParties (d d' : Document) : Prop where
  creators : d'.creators = d.creators
  contributors : d'.contributors = d.contributors
  publisher : d'.publisher = d.publisher

theorem SameParties.apportioned {citation : Element} {d d' : Document} (h : SameParties d d')
    (hd : Apportioned citation d) : Apportioned citation d' := by
  obtain ⟨hcreators, hcontributors, hpublisher⟩ := h
  constructor
  · exact hcreators ▸ hd.creators
  · exact hpublisher ▸ hd.publisher
  · exact hcontributors ▸ hd.contributors
  · exact hd.once
  · rw [hcreators, hcontributors, hpublisher]
    exact hd.count
  · rw [hcreators, hcontributors]
    exact hd.affiliations

theorem SameParties.vacant {d d' : Document} (h : SameParties d d') (hd : Vacant d) : Vacant d' :=
  ⟨h.creators.trans hd.creators, h.contributors.trans hd.contributors,
    h.publisher.trans hd.publisher⟩

theorem SameParties.trans {d d' d'' : Document} (h : SameParties d d') (h' : SameParties d' d'') :
    SameParties d d'' :=
  ⟨h'.creators.trans h.creators, h'.contributors.trans h.contributors,
    h'.publisher.trans h.publisher⟩

theorem mapIdentification_parties (identification : Element) (d : Document) :
    SameParties
      ((identification.descendant? "CI_Citation").elim d fun citation => mapCitation citation d)
      (mapIdentification identification d) := by
  unfold mapIdentification
  cases identification.descendant? "CI_Citation" with
  | none => exact ⟨rfl, rfl, rfl⟩
  | some citation => exact ⟨rfl, rfl, rfl⟩

theorem finish_parties (viewUrl : Option String) (metadata : Element) (d : Document) :
    SameParties d (addLinks viewUrl <| addDataLink metadata <| fillYearOfMetadata metadata <|
      fillYear <| mapDescription metadata <| addFileIdentifier metadata d) := by
  obtain ⟨_, _, hfile⟩ := Citation.addFileIdentifier_eq metadata d
  rw [hfile]
  exact ⟨rfl, rfl, rfl⟩

/-- Only the citation has parties, all else in the metadata leaves them as they are. -/
theorem map_parties (viewUrl : Option String) (metadata : Element) (d : Document) :
    SameParties ((citationIn metadata).elim d fun citation => mapCitation citation d)
      (Iso19139.map viewUrl metadata d) := by
  unfold Iso19139.map citationIn
  cases (metadata.child? "identificationInfo").bind fun i => i.children.head? with
  | none => exact finish_parties viewUrl metadata d
  | some identification =>
    exact (mapIdentification_parties identification d).trans (finish_parties viewUrl metadata _)

/-- A citation gives each of its parties that has a name one place in a document without parties:
the parties without a role or with that of a creator among the creators, the first that publishes as
the publisher, and all others among the contributors, with their roles. The document of a record has
the parties of its citation, and no others. -/
theorem parties_apportioned :
    (∀ (citation : Element) (d : Document), Vacant d →
      Apportioned citation (mapCitation citation d)) ∧
    ∀ (w : Crosswalk) (r : Record) (metadata : Element), r.identifier.isEmpty = false →
      r.deleted = false → r.metadata = some metadata → w.schemaFor r = .ok .iso19139 →
        ∃ d, w.transform r = .ok (some d) ∧
          (∀ citation, citationIn metadata = some citation → Apportioned citation d) ∧
          (citationIn metadata = none → Vacant d) := by
  refine ⟨fun citation d hd => mapCitation_apportioned citation hd, ?_⟩
  intro w r metadata hsome hpresent hmetadata hschema
  have hvacant : Vacant (outline w.context r.header) := ⟨rfl, rfl, rfl⟩
  have hparties := map_parties w.context.viewUrl metadata (outline w.context r.header)
  refine ⟨_, by rw [Answer.transform_full w hsome hpresent hmetadata, hschema]; rfl, ?_, ?_⟩
  · intro citation hcitation
    rw [hcitation] at hparties
    exact hparties.apportioned (mapCitation_apportioned citation hvacant)
  · intro hnone
    rw [hnone] at hparties
    exact hparties.vacant hvacant

/-! A survey: its author, a party without a name, two publishers, a person without a role, and an
office to ask -/

def party (tags : List (String × String)) (role : Option String) : Node :=
  .element (.mk "CI_ResponsibleParty" none []
    ((tags.map fun t => .element (.mk t.1 none [] [.text t.2])) ++
      (role.map fun code => .element (.mk "role" none []
        [.element (.mk "CI_RoleCode" none [⟨none, "codeListValue", code⟩] [])])).toList))

def surveyCitation : Element :=
  .mk "CI_Citation" none []
    [party [("individualName", "Doe"), ("organisationName", "Lab")] (some "author"),
      party [("individualName", " ")] (some "publisher"),
      party [("individualName", "Poe"), ("organisationName", "Press")] (some "publisher"),
      party [("individualName", "Roe")] none,
      party [("organisationName", "Mirror")] (some "publisher"),
      party [("organisationName", "Office")] (some "pointOfContact")]

def surveyMetadata : Element :=
  .mk "MD_Metadata" none [] [.element (.mk "identificationInfo" none []
    [.element (.mk "MD_DataIdentification" none [] [.element surveyCitation])])]

def survey : Record := ⟨{ identifier := "a" }, some surveyMetadata⟩

def geographic : Crosswalk := { mapping := .bound .iso19139, context := { repository := "R" } }

theorem survey_apportioned :
    Apportioned surveyCitation
      (mapCitation surveyCitation (outline geographic.context survey.header)) ∧
    ∃ d, geographic.transform survey = .ok (some d) ∧ Apportioned surveyCitation d ∧
      d.creators = [{ name := "Doe", affiliations := ["Lab"] }, { name := "Roe" }] ∧
      d.publisher = some "Poe" ∧
      d.contributors =
        [⟨"publisher", { name := "Mirror" }⟩, ⟨"pointOfContact", { name := "Office" }⟩] := by
  obtain ⟨hcitation, hrecord⟩ := parties_apportioned
  have hvacant : Vacant (outline geographic.context survey.header) := ⟨rfl, rfl, rfl⟩
  obtain ⟨d, hd, hparties, _⟩ :=
    hrecord geographic survey surveyMetadata (by decide) rfl rfl rfl
  refine ⟨hcitation surveyCitation _ hvacant, d, hd, hparties surveyCitation (by rfl), ?_⟩
  have hmapped : geographic.transform survey = .ok (some
      (Iso19139.map none surveyMetadata (outline geographic.context survey.header))) := by rfl
  rw [hmapped] at hd
  cases hd
  exact ⟨by rfl, by rfl, by rfl⟩

end Harvest.Parties
