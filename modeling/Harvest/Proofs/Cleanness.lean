import Harvest.Proofs.Answer
import Harvest.Proofs.Selection
import Harvest.Proofs.Tidiness

/-!
Every document is clean. The mappers are gone through stage by stage, and each stage keeps what was
there and puts in parts that are clean themselves.
-/
namespace Harvest.Cleanness

open Xml Crosswalk Tidiness Answer Selection

/-! DataCite -/

section

open DataCite

theorem neat_identifierOf (typeName : String) (e : Element) (i : Identifier)
    (h : identifierOf typeName e = some i) : Neat (identifierTexts i) := by
  obtain ⟨value, hvalue, rfl⟩ := Option.map_eq_some_iff.mp h
  exact neat_cons.mpr ⟨tidy_content? hvalue, neat_attribute _ e⟩

theorem neat_titleOf (e : Element) (t : Title) (h : titleOf e = some t) :
    Neat (titleTexts t) := by
  obtain ⟨value, hvalue, rfl⟩ := Option.map_eq_some_iff.mp h
  exact neat_cons.mpr ⟨tidy_content? hvalue, neat_append.mpr ⟨neat_attribute _ e, neat_language e⟩⟩

theorem neat_nameIdentifierOf (e : Element) (n : NameIdentifier)
    (h : nameIdentifierOf e = some n) : Neat (nameIdentifierTexts n) := by
  obtain ⟨value, hvalue, rfl⟩ := Option.map_eq_some_iff.mp h
  exact neat_cons.mpr
    ⟨tidy_content? hvalue, neat_append.mpr ⟨neat_attribute _ e, neat_attribute _ e⟩⟩

theorem neat_personOf (nameTag : String) (e : Element) (p : Person)
    (h : personOf nameTag e = some p) : Neat (personTexts p) := by
  obtain ⟨nameElement, _, h⟩ := Option.bind_eq_some_iff.mp h
  obtain ⟨name, hname, h⟩ := Option.bind_eq_some_iff.mp h
  obtain rfl := Option.some.inj h
  simp only [personTexts, neat_cons, neat_append]
  exact ⟨tidy_content? hname, ⟨⟨⟨neat_attribute _ _, neat_child _ e⟩, neat_child _ e⟩,
    neat_flatMap (neat_parts neat_nameIdentifierOf _)⟩, neat_childTexts _ e⟩

theorem neat_contributorOf (e : Element) (c : Contributor) (h : contributorOf e = some c) :
    Neat (contributorTexts c) := by
  obtain ⟨person, hperson, rfl⟩ := Option.map_eq_some_iff.mp h
  refine neat_cons.mpr ⟨?_, neat_personOf _ e person hperson⟩
  cases htype : e.attributeText? "contributorType" with
  | none => exact (by decide : Tidy "Other")
  | some type => exact tidy_attributeText? htype

theorem neat_subjectOf (e : Element) (t : Subject) (h : subjectOf e = some t) :
    Neat (subjectTexts t) := by
  obtain ⟨value, hvalue, rfl⟩ := Option.map_eq_some_iff.mp h
  simp only [subjectTexts, neat_cons, neat_append]
  exact ⟨tidy_content? hvalue, ⟨⟨neat_attribute _ e, neat_attribute _ e⟩, neat_attribute _ e⟩,
    neat_language e⟩

theorem neat_dateOf (e : Element) (t : DocumentDate) (h : dateOf e = some t) :
    Neat (dateTexts t) := by
  obtain ⟨value, hvalue, rfl⟩ := Option.map_eq_some_iff.mp h
  exact neat_append.mpr ⟨neat_readDate (tidy_content? hvalue), neat_attribute _ e⟩

theorem neat_descriptionOf (e : Element) (t : Description) (h : descriptionOf e = some t) :
    Neat (descriptionTexts t) := by
  obtain ⟨value, hvalue, rfl⟩ := Option.map_eq_some_iff.mp h
  exact neat_cons.mpr ⟨tidy_content? hvalue, neat_append.mpr ⟨neat_attribute _ e, neat_language e⟩⟩

theorem neat_relatedIdentifierOf (e : Element) (r : RelatedIdentifier)
    (h : relatedIdentifierOf e = some r) : Neat (relatedTexts r) := by
  obtain ⟨value, hvalue, h⟩ := Option.bind_eq_some_iff.mp h
  obtain ⟨type, htype, h⟩ := Option.bind_eq_some_iff.mp h
  obtain rfl := Option.some.inj h
  simp only [relatedTexts, neat_cons, neat_append]
  exact ⟨tidy_content? hvalue, tidy_attributeText? htype, neat_attribute _ e, neat_attribute _ e⟩

theorem clean_rightsOf (e : Element) (r : Rights) (h : rightsOf e = some r) :
    Neat (rightsTexts r) ∧ (r.value.isSome ∨ r.uri.isSome) := by
  unfold rightsOf at h
  dsimp only at h
  split at h
  · rename_i hsome
    obtain rfl := Option.some.inj h
    refine ⟨?_, by simpa using hsome⟩
    simp only [rightsTexts, neat_append]
    exact ⟨⟨neat_content e, neat_attribute _ e⟩, neat_language e⟩
  · cases h

theorem neat_fundingOf (e : Element) (f : FundingReference) (h : fundingOf e = some f) :
    Neat (fundingTexts f) := by
  obtain ⟨name, hname, rfl⟩ := Option.map_eq_some_iff.mp h
  simp only [fundingTexts, neat_cons, neat_append]
  refine ⟨tidy_childText? hname, ⟨⟨neat_flatMap fun i hi => ?_, neat_child _ e⟩, ?_⟩,
    neat_child _ e⟩
  · obtain ⟨child, _, hchild⟩ := Option.bind_eq_some_iff.mp (Option.mem_toList.mp hi)
    exact neat_identifierOf _ child i hchild
  · refine neat_toList.mpr fun uri huri => ?_
    obtain ⟨child, _, hchild⟩ := Option.bind_eq_some_iff.mp huri
    exact tidy_attributeText? hchild

/-- A funder among the contributors has only texts of the contributor. -/
theorem neat_fundingOfContributor {c : Contributor} (h : Neat (contributorTexts c)) :
    Neat (fundingTexts (fundingOfContributor c)) := by
  simp only [contributorTexts, personTexts, neat_cons, neat_append] at h
  obtain ⟨_, hname, ⟨_, hidentifiers⟩, _⟩ := h
  simp only [fundingOfContributor, fundingTexts, neat_cons, neat_append, Option.toList_none,
    neat_nil, and_true]
  refine ⟨hname, neat_flatMap fun i hi => ?_⟩
  obtain ⟨n, hn, rfl⟩ := Option.map_eq_some_iff.mp (Option.mem_toList.mp hi)
  have hmem : n ∈ c.person.nameIdentifiers := List.mem_of_head? hn
  have htexts : Neat (nameIdentifierTexts n) :=
    fun s hs => hidentifiers s (List.mem_flatMap.mpr ⟨n, hmem, hs⟩)
  simp only [nameIdentifierTexts, neat_cons, neat_append] at htexts
  exact neat_cons.mpr ⟨htexts.1, htexts.2.1⟩

theorem neat_resourceTypeOf (filmIsKnown : Bool) (e : Element) (t : ResourceType)
    (h : resourceTypeOf filmIsKnown e = some t) : Neat t.value.toList := by
  obtain ⟨child, _, h⟩ := Option.bind_eq_some_iff.mp h
  dsimp only at h
  split at h
  · cases h
  · obtain rfl := Option.some.inj h
    exact neat_content child

/-- No polygon that a kernel reads is empty. -/
def Filled (p : Places) : Prop := ∀ e, ∀ polygon ∈ p.polygons e, polygon ≠ []

theorem clean_placesOf {p : Places} (hfilled : Filled p) (resource : Element) :
    ∀ g ∈ placesOf p resource,
      Neat g.place.toList ∧ g.isEmpty = false ∧ ∀ polygon ∈ g.polygons, polygon ≠ [] := by
  intro g hg
  obtain ⟨hmem, hsome⟩ := List.mem_filter.mp hg
  obtain ⟨e, _, rfl⟩ := List.mem_map.mp hmem
  exact ⟨neat_child _ e, by simpa using hsome, hfilled e⟩

theorem filled_places2 : Filled places2 := by
  intro e polygon h
  cases h

theorem filled_places3 : Filled places3 := by
  intro e polygon h
  cases h

theorem filled_places4 : Filled places4 := by
  intro e polygon h hnil
  have hsome := (List.mem_filter.mp h).2
  simp [hnil] at hsome

theorem clean_mapCommon (resource : Element) {d : Document} (h : Clean d) :
    Clean (mapCommon resource d) :=
  { h with
    resourceIdentifier := fun i hi => by
      obtain ⟨child, _, hchild⟩ := Option.bind_eq_some_iff.mp hi
      exact neat_identifierOf _ child i hchild
    titles := neat_parts neat_titleOf _
    creators := neat_parts (neat_personOf _) _
    subjects := fun t ht => by
      rcases List.mem_append.mp ht with hold | hnew
      · exact h.subjects t hold
      · exact neat_parts neat_subjectOf _ t hnew
    dates := neat_parts neat_dateOf _
    descriptions := neat_parts neat_descriptionOf _
    relatedIdentifiers := neat_parts neat_relatedIdentifierOf _
    alternateIdentifiers := neat_parts (neat_identifierOf _) _
    sizes := neat_contents _
    formats := neat_contents _
    publisher := neat_child _ resource
    language := neat_child _ resource
    version := neat_child _ resource
    publicationYear := fun y hy => by
      obtain ⟨year, _, hyear⟩ := Option.bind_eq_some_iff.mp hy
      exact yearOf_bounds hyear }

theorem neat_contributorsOf (resource : Element) :
    ∀ c ∈ contributorsOf resource, Neat (contributorTexts c) :=
  neat_parts neat_contributorOf _

theorem clean_mapFunders (resource : Element) {d : Document} (h : Clean d) :
    Clean (mapFunders resource d) := by
  rw [mapFunders_eq]
  exact
    { h with
      contributors := fun c hc => neat_contributorsOf resource c (List.mem_filter.mp hc).1
      fundingReferences := fun f hf => by
        obtain ⟨c, hc, rfl⟩ := List.mem_map.mp hf
        exact neat_fundingOfContributor (neat_contributorsOf resource c (List.mem_filter.mp hc).1) }

theorem clean_rightsList (resource : Element) :
    ∀ r ∈ rightsList resource, Neat (rightsTexts r) ∧ (r.value.isSome ∨ r.uri.isSome) := by
  intro r hr
  obtain ⟨e, _, he⟩ := List.mem_filterMap.mp hr
  exact clean_rightsOf e r he

theorem clean_singleRights (resource : Element) :
    ∀ r ∈ singleRights resource, Neat (rightsTexts r) ∧ (r.value.isSome ∨ r.uri.isSome) := by
  intro r hr
  obtain ⟨e, _, he⟩ := Option.bind_eq_some_iff.mp (Option.mem_toList.mp hr)
  exact clean_rightsOf e r he

/-- What a kernel maps in its own way. -/
theorem clean_finish {d : Document} (h : Clean d) (viewUrl : Option String)
    {rights : List Rights}
    (hrights : ∀ r ∈ rights, Neat (rightsTexts r) ∧ (r.value.isSome ∨ r.uri.isSome))
    (filmIsKnown : Bool) {p : Places} (hfilled : Filled p) (resource : Element) :
    Clean (finish viewUrl
      { d with
        rights, resourceType := resourceTypeOf filmIsKnown resource,
        geoLocations := placesOf p resource }) := by
  refine (Clean.fillYear ?_).addLinks viewUrl
  exact
    { h with
      rights := hrights
      resourceType := neat_resourceTypeOf filmIsKnown resource
      geoLocations := clean_placesOf hfilled resource }

theorem clean_mapKernel2 (viewUrl : Option String) (metadata : Element) {d : Document}
    (h : Clean d) : Clean (mapKernel2 viewUrl metadata d) :=
  clean_finish (clean_mapFunders _ (clean_mapCommon _ h)) viewUrl (clean_singleRights _) true
    filled_places2 _

theorem clean_mapKernel3 (viewUrl : Option String) (metadata : Element) {d : Document}
    (h : Clean d) : Clean (mapKernel3 viewUrl metadata d) :=
  clean_finish (clean_mapFunders _ (clean_mapCommon _ h)) viewUrl (clean_rightsList _) false
    filled_places3 _

theorem clean_mapKernel4 (viewUrl : Option String) (metadata : Element) {d : Document}
    (h : Clean d) : Clean (mapKernel4 viewUrl metadata d) := by
  have hfunded : Clean
      { mapCommon (resourceOf metadata) d with
        contributors := contributorsOf (resourceOf metadata),
        fundingReferences := (itemsOf "fundingReferences" "fundingReference"
          (resourceOf metadata)).filterMap fundingOf } :=
    { clean_mapCommon (resourceOf metadata) h with
      contributors := neat_contributorsOf _
      fundingReferences := neat_parts neat_fundingOf _ }
  exact clean_finish hfunded viewUrl (clean_rightsList _) false filled_places4 _

end

/-! Dublin Core -/

section

open DublinCore

theorem tidy_inferType {s type : String} (h : inferType s = some type) : Tidy type := by
  unfold inferType at h
  split at h
  · rw [← Option.some.inj h]
    decide
  · split at h
    · rw [← Option.some.inj h]
      decide
    · cases h

theorem neat_typed {value : String} (h : Tidy value) : Neat (identifierTexts (typed value)) :=
  neat_cons.mpr ⟨h, neat_toList.mpr fun _ => tidy_inferType⟩

theorem neat_splitIdentifiers {values : List String} (h : Neat values) :
    (∀ i, (splitIdentifiers values).1 = some i → Neat (identifierTexts i)) ∧
      ∀ i ∈ (splitIdentifiers values).2, Neat (identifierTexts i) := by
  rw [splitIdentifiers_eq]
  split
  · refine ⟨by simp, fun i hi => ?_⟩
    obtain ⟨value, hvalue, rfl⟩ := List.mem_map.mp hi
    exact neat_typed (h value hvalue)
  · refine ⟨fun i hi => ?_, fun i hi => ?_⟩
    · obtain ⟨value, hvalue, rfl⟩ := Option.map_eq_some_iff.mp hi
      exact neat_typed (h value (List.mem_of_getElem? hvalue))
    · obtain ⟨value, hvalue, rfl⟩ := List.mem_map.mp hi
      exact neat_typed (h value (List.mem_of_mem_eraseIdx hvalue))

theorem neat_datesOf {values : List String} (h : Neat values) :
    ∀ t ∈ datesOf values, Neat (dateTexts t) := by
  have hpoint {value : String} (hvalue : Tidy value) (type : DateType) :
      Neat (dateTexts { date := readDate value, dateType := type }) :=
    neat_append.mpr ⟨neat_readDate hvalue, neat_nil⟩
  cases values with
  | nil => simp [datesOf]
  | cons issued others =>
    obtain ⟨hissued, hothers⟩ := neat_cons.mp h
    intro t ht
    rcases List.mem_cons.mp ht with rfl | ht
    · exact hpoint hissued _
    · obtain ⟨value, hvalue, rfl⟩ := List.mem_map.mp ht
      exact hpoint (hothers value hvalue) _

theorem clean_mapDublinCore (viewUrl : Option String) (metadata : Element) {d : Document}
    (h : Clean d) : Clean (DublinCore.map viewUrl metadata d) := by
  have htexts (tag : String) : Neat (metadata.childTexts tag) := neat_childTexts tag metadata
  obtain ⟨hmain, hothers⟩ := neat_splitIdentifiers (htexts "identifier")
  refine (Clean.fillYear ?_).addLinks viewUrl
  exact
    { h with
      titles := fun t ht => by
        obtain ⟨value, hvalue, rfl⟩ := List.mem_map.mp ht
        simpa [titleTexts] using htexts _ value hvalue
      creators := fun p hp => by
        obtain ⟨name, hname, rfl⟩ := List.mem_map.mp hp
        simpa [personTexts] using htexts _ name hname
      contributors := fun c hc => by
        obtain ⟨name, hname, rfl⟩ := List.mem_map.mp hc
        have htype : Tidy "Other" := by decide
        simp [contributorTexts, personTexts, htype, htexts _ name hname]
      subjects := fun t ht => by
        rcases List.mem_append.mp ht with hold | hnew
        · exact h.subjects t hold
        · obtain ⟨value, hvalue, rfl⟩ := List.mem_map.mp hnew
          simpa [subjectTexts] using htexts _ value hvalue
      descriptions := fun t ht => by
        obtain ⟨value, hvalue, rfl⟩ := List.mem_map.mp ht
        simpa [descriptionTexts] using htexts _ value hvalue
      publisher := neat_child _ metadata
      language := neat_child _ metadata
      dates := neat_datesOf (htexts _)
      resourceType := fun t ht => by
        obtain ⟨value, hvalue, rfl⟩ := Option.map_eq_some_iff.mp ht
        simpa [DublinCore.resourceTypeOf] using tidy_childText? hvalue
      formats := htexts _
      rights := fun r hr => by
        obtain ⟨value, hvalue, rfl⟩ := List.mem_map.mp hr
        have htidy := htexts _ value hvalue
        unfold DublinCore.rightsOf
        split <;> simp [rightsTexts, htidy]
      geoLocations := fun g hg => by
        obtain ⟨place, hplace, rfl⟩ := List.mem_map.mp hg
        simp [htexts _ place hplace, GeoLocation.isEmpty]
      relatedIdentifiers := fun r hr => by
        obtain ⟨value, hvalue, hr⟩ := List.mem_filterMap.mp hr
        obtain ⟨type, htype, rfl⟩ := Option.map_eq_some_iff.mp hr
        simp [relatedTexts, htexts _ value hvalue, tidy_inferType htype]
      resourceIdentifier := hmain
      alternateIdentifiers := hothers }

end

/-! ISO 19139 -/

section

open Iso19139

theorem tidy_codeAttribute {e : Element} {s : String} (h : codeAttribute e = some s) : Tidy s :=
  tidy_attributeText? h

theorem tidy_codeOf {codeTag : String} {e : Element} {s : String} (h : codeOf codeTag e = some s) :
    Tidy s := by
  rcases Option.or_eq_some_iff.mp h with hcode | ⟨_, hwhole⟩
  · obtain ⟨code, _, hcode⟩ := Option.bind_eq_some_iff.mp hcode
    rcases Option.or_eq_some_iff.mp hcode with hattribute | ⟨_, htext⟩
    · exact tidy_codeAttribute hattribute
    · exact tidy_content? htext
  · exact tidy_content? hwhole

theorem neat_titlesOf (citation : Element) : ∀ t ∈ titlesOf citation, Neat (titleTexts t) := by
  intro t ht
  rcases List.mem_append.mp ht with hmain | halternate
  · obtain ⟨value, hvalue, rfl⟩ := Option.map_eq_some_iff.mp (Option.mem_toList.mp hmain)
    simpa [titleTexts] using tidy_childText? hvalue
  · obtain ⟨value, hvalue, rfl⟩ := List.mem_map.mp halternate
    have htidy := neat_childTexts _ citation value hvalue
    have htype : Tidy "AlternativeTitle" := by decide
    simp [titleTexts, htidy, htype]

theorem neat_isoDateOf (e : Element) (t : DocumentDate) (h : Iso19139.dateOf e = some t) :
    Neat (dateTexts t) := by
  obtain ⟨dated, _, h⟩ := Option.bind_eq_some_iff.mp h
  obtain ⟨value, hvalue, h⟩ := Option.bind_eq_some_iff.mp h
  obtain rfl := Option.some.inj h
  exact neat_append.mpr ⟨neat_readDate (tidy_childText? hvalue), neat_nil⟩

theorem neat_isoIdentifierOf (citation : Element) (i : Identifier)
    (h : Iso19139.identifierOf citation = some i) : Neat (identifierTexts i) := by
  obtain ⟨value, hvalue, rfl⟩ := Option.map_eq_some_iff.mp h
  obtain ⟨e, _, he⟩ := Option.bind_eq_some_iff.mp hvalue
  exact neat_typed (tidy_childText? he)

/-- The texts of a party: those of its person, and its role. -/
def partyTexts (p : Party) : List String := p.role.toList ++ personTexts p.person

theorem neat_partyOf (e : Element) (p : Party) (h : partyOf e = some p) : Neat (partyTexts p) := by
  have hrole : Neat ((e.descendant? "CI_RoleCode").bind codeAttribute).toList := by
    refine neat_toList.mpr fun s hs => ?_
    obtain ⟨code, _, hcode⟩ := Option.bind_eq_some_iff.mp hs
    exact tidy_codeAttribute hcode
  unfold partyOf at h
  dsimp only at h
  split at h
  · rename_i name hname
    obtain rfl := Option.some.inj h
    refine neat_append.mpr ⟨hrole, ?_⟩
    simpa [personTexts, tidy_childText? hname] using fun s => tidy_childText?
  · obtain ⟨name, hname, rfl⟩ := Option.map_eq_some_iff.mp h
    refine neat_append.mpr ⟨hrole, ?_⟩
    simpa [personTexts] using tidy_childText? hname

theorem clean_addParty {d : Document} (h : Clean d) {p : Party} (hp : Neat (partyTexts p)) :
    Clean (addParty d p) := by
  obtain ⟨hrole, hperson⟩ := neat_append.mp hp
  have hcreator : Clean (addCreator p.person d) :=
    { h with
      creators := fun q hq => by
        rcases List.mem_append.mp hq with hold | hnew
        · exact h.creators q hold
        · rw [List.mem_singleton.mp hnew]
          exact hperson }
  unfold addParty
  split
  · exact hcreator
  · rename_i role hsome
    split
    · exact hcreator
    · split
      · exact
          { h with
            publisher := by simpa using (neat_cons.mp hperson).1 }
      · exact
          { h with
            contributors := fun c hc => by
              rcases List.mem_append.mp hc with hold | hnew
              · exact h.contributors c hold
              · rw [List.mem_singleton.mp hnew]
                exact neat_cons.mpr ⟨neat_toList.mp hrole role hsome, hperson⟩ }

theorem clean_parties (parties : List Party) (hparties : ∀ p ∈ parties, Neat (partyTexts p))
    {d : Document} (h : Clean d) : Clean (parties.foldl addParty d) := by
  induction parties generalizing d with
  | nil => exact h
  | cons p parties ih =>
    refine ih (fun q hq => hparties q (List.mem_cons_of_mem _ hq)) ?_
    exact clean_addParty h (hparties p List.mem_cons_self)

theorem clean_mapCitation (citation : Element) {d : Document} (h : Clean d) :
    Clean (mapCitation citation d) := by
  refine clean_parties _ (neat_parts neat_partyOf _) ?_
  exact
    { h with
      titles := neat_titlesOf citation
      dates := neat_parts neat_isoDateOf _
      resourceIdentifier := neat_isoIdentifierOf citation }

theorem clean_mapIdentification (identification : Element) {d : Document} (h : Clean d) :
    Clean (mapIdentification identification d) := by
  unfold mapIdentification
  extract_lets cited
  have hcited : Clean cited := by
    unfold cited
    split
    · exact clean_mapCitation _ h
    · exact h
  exact
    { hcited with
      descriptions := fun t ht => by
        obtain ⟨value, hvalue, rfl⟩ := Option.map_eq_some_iff.mp (Option.mem_toList.mp ht)
        have htype : Tidy "Abstract" := by decide
        simp [descriptionTexts, tidy_childText? hvalue, htype]
      subjects := fun t ht => by
        rcases List.mem_append.mp ht with ht | htopic
        · rcases List.mem_append.mp ht with hold | hkeyword
          · exact hcited.subjects t hold
          · obtain ⟨value, hvalue, rfl⟩ := List.mem_map.mp hkeyword
            simpa [subjectTexts] using neat_contents _ value hvalue
        · obtain ⟨value, hvalue, rfl⟩ := List.mem_map.mp htopic
          have hscheme : Tidy "ISO 19115 Topic Category" := by decide
          simp [topicOf, subjectTexts, neat_childTexts _ _ value hvalue, hscheme]
      rights := fun r hr => by
        obtain ⟨value, hvalue, rfl⟩ := List.mem_map.mp hr
        obtain ⟨constraints, _, hmem⟩ := List.mem_flatMap.mp hvalue
        simp [rightsTexts, neat_contents _ value hmem]
      geoLocations := fun g hg => by
        obtain ⟨hmem, hsome⟩ := List.mem_filter.mp hg
        obtain ⟨e, _, rfl⟩ := List.mem_map.mp hmem
        exact ⟨neat_child _ e, by simpa using hsome, by simp [extentOf]⟩ }

theorem clean_addFileIdentifier (metadata : Element) {d : Document} (h : Clean d) :
    Clean (addFileIdentifier metadata d) := by
  unfold addFileIdentifier
  split
  · exact h
  · rename_i value hvalue
    have htexts : Neat (identifierTexts { value }) := by
      simpa [identifierTexts] using tidy_childText? hvalue
    split
    · exact
        { h with
          resourceIdentifier := fun i hi => by
            rw [← Option.some.inj hi]
            exact htexts }
    · exact
        { h with
          alternateIdentifiers := fun i hi => by
            rcases List.mem_append.mp hi with hold | hnew
            · exact h.alternateIdentifiers i hold
            · rw [List.mem_singleton.mp hnew]
              exact htexts }

theorem clean_mapDescription (metadata : Element) {d : Document} (h : Clean d) :
    Clean (mapDescription metadata d) :=
  { h with
    language := neat_toList.mpr fun s hs => by
      obtain ⟨e, _, he⟩ := Option.bind_eq_some_iff.mp hs
      exact tidy_codeOf he
    resourceType := fun t ht => by
      obtain ⟨scope, hscope, rfl⟩ := Option.map_eq_some_iff.mp ht
      obtain ⟨e, _, he⟩ := Option.bind_eq_some_iff.mp hscope
      simpa using tidy_codeOf he
    formats := fun s hs => by
      obtain ⟨e, _, he⟩ := List.mem_filterMap.mp hs
      exact tidy_childText? he }

theorem clean_fillYearOfMetadata (metadata : Element) {d : Document} (h : Clean d) :
    Clean (fillYearOfMetadata metadata d) :=
  { h with
    publicationYear := fun y hy => by
      rcases Option.or_eq_some_iff.mp hy with hown | ⟨_, hstamp⟩
      · exact h.publicationYear y hown
      · obtain ⟨stamp, _, hstamp⟩ := Option.bind_eq_some_iff.mp hstamp
        exact yearOf_bounds hstamp }

theorem clean_addDataLink (metadata : Element) {d : Document} (h : Clean d) :
    Clean (addDataLink metadata d) :=
  { h with
    webLinks := fun l hl hof => by
      rcases List.mem_append.mp hl with hold | hnew
      · exact h.webLinks l hold hof
      · obtain ⟨transfer, _, hlink⟩ := Option.bind_eq_some_iff.mp (Option.mem_toList.mp hnew)
        obtain ⟨address, _, hlink⟩ := Option.bind_eq_some_iff.mp hlink
        obtain ⟨url, hurl, hlink⟩ := Option.bind_eq_some_iff.mp hlink
        obtain rfl := Option.some.inj hlink
        refine ⟨?_, tidy_content? hurl⟩
        cases htitle : d.mainTitle? with
        | none => exact (by decide : Tidy dataName)
        | some title =>
          obtain ⟨t, ht, rfl⟩ := Option.map_eq_some_iff.mp htitle
          exact (neat_cons.mp (h.titles t (List.mem_of_head? ht))).1 }

theorem clean_mapIso19139 (viewUrl : Option String) (metadata : Element) {d : Document}
    (h : Clean d) : Clean (Iso19139.map viewUrl metadata d) := by
  unfold Iso19139.map
  extract_lets identified
  have hidentified : Clean identified := by
    unfold identified
    split
    · exact clean_mapIdentification _ h
    · exact h
  have hdescribed := clean_mapDescription metadata (clean_addFileIdentifier metadata hidentified)
  exact (clean_addDataLink metadata
    (clean_fillYearOfMetadata metadata hdescribed.fillYear)).addLinks viewUrl

end

/-! Documents -/

theorem clean_map (schema : Schema) (viewUrl : Option String) (metadata : Element) {d : Document}
    (h : Clean d) : Clean (schema.map viewUrl metadata d) := by
  cases schema with
  | dataCite2 => exact clean_mapKernel2 viewUrl metadata h
  | dataCite3 => exact clean_mapKernel3 viewUrl metadata h
  | dataCite4 => exact clean_mapKernel4 viewUrl metadata h
  | dublinCore => exact clean_mapDublinCore viewUrl metadata h
  | iso19139 => exact clean_mapIso19139 viewUrl metadata h

theorem clean_tombstone {header : Header} (h : CleanHeader header)
    (hsome : header.identifier.isEmpty = false) (repository : String) :
    Clean (Document.tombstone header.identifier repository header.datestamp) where
  identifier := h.identifier_tidy hsome
  version := neat_toList.mpr fun s hs => by
    rw [← Option.some.inj hs]
    decide
  dates t ht := by
    obtain ⟨stamp, hstamp, rfl⟩ := Option.map_eq_some_iff.mp (Option.mem_toList.mp ht)
    simpa [dateTexts, dateValueTexts] using neat_toList.mp h.datestamp stamp hstamp
  resourceIdentifier := by simp [Document.tombstone]
  titles := by simp [Document.tombstone]
  creators := by simp [Document.tombstone]
  contributors := by simp [Document.tombstone]
  descriptions := by simp [Document.tombstone]
  subjects := by simp [Document.tombstone]
  rights := by simp [Document.tombstone]
  relatedIdentifiers := by simp [Document.tombstone]
  alternateIdentifiers := by simp [Document.tombstone]
  geoLocations := by simp [Document.tombstone]
  fundingReferences := by simp [Document.tombstone]
  webLinks := by simp [Document.tombstone]
  publisher := by simp [Document.tombstone]
  language := by simp [Document.tombstone]
  resourceType := by simp [Document.tombstone]
  publicationYear := by simp [Document.tombstone]
  formats := by simp [Document.tombstone]
  sizes := by simp [Document.tombstone]

/-- The numbers that say where a place is. -/
def coordinates (g : GeoLocation) : List Number.Binary64 :=
  g.point.toList.flatMap (fun p => [p.longitude, p.latitude]) ++
    g.boundingBox.toList.flatMap (fun b => [b.west, b.east, b.south, b.north]) ++
    g.polygons.flatten.flatMap fun p => [p.longitude, p.latitude]

theorem shifted_lt {m k n : ℕ} (hm : m < Nat.pow 2 53) (h : 53 + k ≤ n) :
    m * Nat.pow 2 k < Nat.pow 2 n :=
  calc m * Nat.pow 2 k
      < Nat.pow 2 53 * Nat.pow 2 k := Nat.mul_lt_mul_of_pos_right hm (Nat.two_pow_pos _)
    _ = Nat.pow 2 (53 + k) := (Nat.pow_add 2 53 _).symm
    _ ≤ Nat.pow 2 n := Nat.pow_le_pow_right (by decide) h

/-- A number is below `2 ^ 1024`, counted in units of `2 ^ (-1074)`. -/
theorem finite (x : Number.Binary64) :
    x.mantissa * Nat.pow 2 (x.exponent + 1074).toNat < Nat.pow 2 (1024 + 1074) := by
  have hexponent : 53 + (x.exponent + 1074).toNat ≤ 1024 + 1074 := by
    have := x.exponent_le
    omega
  apply shifted_lt
  · exact x.mantissa_lt
  · exact hexponent

/-- Whatever a record holds, the document it is mapped to is clean, and so is the one that stands in
for it if it was deleted. All its coordinates are finite. -/
theorem documents_clean (w : Crosswalk) (e : Element) (d : Document)
    (h : w.transform (.ofElement e) = .ok (some d)) :
    Clean d ∧ ∀ g ∈ d.geoLocations, ∀ x ∈ coordinates g,
      x.mantissa * Nat.pow 2 (x.exponent + 1074).toNat < Nat.pow 2 (1024 + 1074) := by
  refine ⟨?_, fun _ _ x _ => finite x⟩
  have hheader := clean_header e
  generalize Record.ofElement e = r at h hheader
  cases hdeleted : r.deleted with
  | true =>
    obtain ⟨hsome, rfl⟩ := tombstone_of_document w hdeleted h
    exact clean_tombstone hheader hsome _
  | false =>
    obtain ⟨hsome, metadata, schema, _, _, rfl⟩ := mapped_of_document w hdeleted h
    exact clean_map schema _ metadata (clean_outline _ hheader hsome)

/-! A record with blanks wherever they may stand -/

def node (name : String) (content : List Node) : Node := .element (.mk name none [] content)

def blankRecord : Element :=
  .mk "record" none []
    [node "header" [node "identifier" [.text " a "], node "setSpec" [.text " "],
      node "setSpec" [.text "\ts"]],
    node "metadata" [node "resource"
      [node "titles" [node "title" [.text "  "],
        .element (.mk "title" none [⟨none, "titleType", " "⟩, ⟨some xmlSpace, "lang", " en "⟩]
          [.text " T "])],
      node "dates" [.element (.mk "date" none [⟨none, "dateType", "Issued"⟩] [.text "2001 / "])],
      node "geoLocations" [node "geoLocation" [node "geoLocationPlace" [.text " "]],
        node "geoLocation" [node "geoLocationPoint" [node "pointLongitude" [.text " 1.5 "],
          node "pointLatitude" [.text "2"]]]]]]]

def cleanDocument : Document where
  identifier := "a"
  repositoryIdentifier := "R"
  titles := [{ value := "T", lang := some "en" }]
  dates := [{ date := .range (some "2001") none, dateType := .issued }]
  subjects := [{ value := "s" }]
  geoLocations := [{ point := some {
    longitude := ⟨false, 3 * Nat.pow 2 51, -52, by decide, by decide, by decide, by decide⟩
    latitude := ⟨false, Nat.pow 2 52, -51, by decide, by decide, by decide, by decide⟩ } }]
  publicationYear := some 2001

theorem blank_record_clean :
    let w : Crosswalk := { mapping := .bound .dataCite4, context := { repository := "R" } }
    w.transform (.ofElement blankRecord) = .ok (some cleanDocument) ∧ Clean cleanDocument := by
  intro w
  have hdocument : w.transform (.ofElement blankRecord) = .ok (some cleanDocument) := by
    decide +kernel
  exact ⟨hdocument, (documents_clean w blankRecord cleanDocument hdocument).1⟩

end Harvest.Cleanness
