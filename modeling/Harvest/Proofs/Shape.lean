import Harvest.Proofs.Answer
import Harvest.Proofs.Citation
import Harvest.Proofs.Interruption

/-!
The shape of a document. The mapper of each schema fills the document that the header has begun. It
keeps the identifiers, puts subjects behind those that are there, and comes to the links at last,
when it knows what the resource is related to.
-/
namespace Harvest.Shape

open Xml Crosswalk DataCite Iso19139 Answer Course Account Renewal

/-! What a mapper leaves as it was -/

/-- The part of a document that a mapper keeps. Subjects may come behind those that are there. -/
structure Keeps (d d' : Document) : Prop where
  identifier : d'.identifier = d.identifier
  repository : d'.repositoryIdentifier = d.repositoryIdentifier
  subjects : d.subjects <+: d'.subjects
  links : d'.webLinks = d.webLinks

theorem Keeps.refl (d : Document) : Keeps d d := ⟨rfl, rfl, List.prefix_refl _, rfl⟩

theorem Keeps.trans {d d' d'' : Document} (h : Keeps d d') (h' : Keeps d' d'') : Keeps d d'' where
  identifier := h'.identifier.trans h.identifier
  repository := h'.repository.trans h.repository
  subjects := h.subjects.trans h'.subjects
  links := h'.links.trans h.links

/-- A change of other fields keeps all of it. -/
theorem Keeps.of_same {d d' : Document} (hidentifier : d'.identifier = d.identifier)
    (hrepository : d'.repositoryIdentifier = d.repositoryIdentifier)
    (hsubjects : d'.subjects = d.subjects) (hlinks : d'.webLinks = d.webLinks) : Keeps d d' :=
  ⟨hidentifier, hrepository, hsubjects ▸ List.prefix_refl _, hlinks⟩

theorem mapCommon_keeps (resource : Element) (d : Document) : Keeps d (mapCommon resource d) :=
  ⟨rfl, rfl, List.prefix_append _ _, rfl⟩

theorem mapFunders_keeps (resource : Element) (d : Document) : Keeps d (mapFunders resource d) :=
  .of_same rfl rfl rfl rfl

theorem parties_keep (parties : List Party) (d : Document) :
    Keeps d (parties.foldl addParty d) := by
  obtain ⟨_, _, _, hparties⟩ := Citation.parties_eq parties d
  rw [hparties]
  exact .of_same rfl rfl rfl rfl

theorem mapCitation_keeps (citation : Element) (d : Document) :
    Keeps d (mapCitation citation d) := by
  refine .trans ?_ (parties_keep (partiesOf citation) _)
  exact .of_same rfl rfl rfl rfl

theorem mapIdentification_keeps (identification : Element) (d : Document) :
    Keeps d (mapIdentification identification d) := by
  unfold mapIdentification
  cases identification.descendant? "CI_Citation" with
  | none => exact ⟨rfl, rfl, ⟨_, (List.append_assoc _ _ _).symm⟩, rfl⟩
  | some citation =>
    refine (mapCitation_keeps citation d).trans ?_
    exact ⟨rfl, rfl, ⟨_, (List.append_assoc _ _ _).symm⟩, rfl⟩

theorem addFileIdentifier_keeps (metadata : Element) (d : Document) :
    Keeps d (addFileIdentifier metadata d) := by
  obtain ⟨_, _, hfile⟩ := Citation.addFileIdentifier_eq metadata d
  rw [hfile]
  exact .of_same rfl rfl rfl rfl

/-- Description and year come from the metadata alone. -/
theorem mapDescription_keeps (metadata : Element) (d : Document) :
    Keeps d (fillYearOfMetadata metadata <| fillYear <| mapDescription metadata d) :=
  .of_same rfl rfl rfl rfl

/-! The links -/

/-- An identifier of this type leads somewhere. Types are compared without regard to case. -/
def leads (type : Option String) : Bool :=
  type.any fun t => Text.upper t.toList == "DOI".toList || Text.upper t.toList == "URL".toList

theorem identifierUrl_isSome (value : String) (type : Option String) :
    (identifierUrl value type).isSome = leads type := by
  cases type with
  | none => rfl
  | some t =>
    rw [identifierUrl, leads, Option.map_some, Option.any_some]
    generalize Text.upper t.toList = upper
    split
    · next h => rw [Option.some.inj h]; rfl
    · next h => rw [Option.some.inj h]; rfl
    · next hdoi hurl =>
      have hdoi' : upper ≠ ['D', 'O', 'I'] := fun h => hdoi (congrArg some h)
      have hurl' : upper ≠ ['U', 'R', 'L'] := fun h => hurl (congrArg some h)
      simp [hdoi', hurl']

/-- The related identifier leads somewhere. -/
def leadsOn (related : RelatedIdentifier) : Bool := leads (some related.identifierType)

/-- A link to where a related identifier leads. It is named by the relation, if that is told. -/
structure Follows (related : RelatedIdentifier) (link : WebLink) : Prop where
  type : link.linkType = .related
  name : link.name = related.relationType.getD relatedName
  url : identifierUrl related.value (some related.identifierType) = some link.url

/-- The related identifiers that lead somewhere have a link each, in their order. -/
theorem relatedLinks_follow (related : List RelatedIdentifier) :
    List.Forall₂ Follows (related.filter leadsOn) (relatedLinks related) := by
  induction related with
  | nil => exact .nil
  | cons r related ih =>
    have hleads := identifierUrl_isSome r.value (some r.identifierType)
    cases hurl : identifierUrl r.value (some r.identifierType) with
    | none =>
      have hnot : ¬leadsOn r = true := by simp [leadsOn, ← hleads, hurl]
      have hlink : relatedLink r = none := by rw [relatedLink, hurl, Option.map_none]
      rw [List.filter_cons_of_neg hnot, relatedLinks, List.filterMap_cons_none hlink]
      exact ih
    | some url =>
      have hyes : leadsOn r = true := by simp [leadsOn, ← hleads, hurl]
      have hlink : relatedLink r = some ⟨r.relationType.getD relatedName, url, .related⟩ := by
        rw [relatedLink, hurl, Option.map_some]
      rw [List.filter_cons_of_pos hyes, relatedLinks, List.filterMap_cons_some hlink]
      exact .cons ⟨rfl, rfl, hurl⟩ ih

theorem viewLink_isSome (identifier : String) (resource : Option Identifier)
    (viewUrl : Option String) :
    (viewLink identifier resource viewUrl).isSome =
      (viewUrl.isSome || resource.any fun i => leads i.identifierType) := by
  cases viewUrl with
  | some template => rfl
  | none =>
    cases resource with
    | none => rfl
    | some i => simpa [viewLink] using identifierUrl_isSome i.value i.identifierType

theorem viewLink_type {identifier : String} {resource : Option Identifier}
    {viewUrl : Option String} {link : WebLink}
    (h : viewLink identifier resource viewUrl = some link) : link.linkType = .viewUrl := by
  obtain ⟨url, _, hlink⟩ := Option.map_eq_some_iff.mp h
  rw [← hlink]

/-- Before its metadata are mapped, a document has no link but to the logo. -/
theorem outline_type {context : Context} {header : Header} {link : WebLink}
    (h : link ∈ (outline context header).webLinks) : link.linkType = .providerLogo := by
  obtain ⟨url, _, rfl⟩ := Option.map_eq_some_iff.mp (Option.mem_toList.mp h)
  rfl

theorem relatedLinks_type {related : List RelatedIdentifier} {link : WebLink}
    (h : link ∈ relatedLinks related) : link.linkType = .related := by
  obtain ⟨r, _, hr⟩ := List.mem_filterMap.mp h
  obtain ⟨url, _, rfl⟩ := Option.map_eq_some_iff.mp hr
  rfl

theorem dataLink_type {metadata : Element} {title : Option String} {link : WebLink}
    (h : dataLink metadata title = some link) : link.linkType = .researchData := by
  obtain ⟨transfer, _, h⟩ := Option.bind_eq_some_iff.mp h
  obtain ⟨address, _, h⟩ := Option.bind_eq_some_iff.mp h
  obtain ⟨url, _, h⟩ := Option.bind_eq_some_iff.mp h
  rw [← Option.some.inj h]

/-! The mapper of each schema -/

/-- A mapper has filled a document, put a link to the data behind the links that were there, if the
schema has such a link, and then the other links. -/
def Fills (schema : Schema) (viewUrl : Option String) (d d' : Document) : Prop :=
  ∃ (filled : Document) (data : Option WebLink), Keeps d filled ∧
    (∀ link ∈ data, schema = .iso19139 ∧ link.linkType = .researchData) ∧
    d' = addLinks viewUrl { filled with webLinks := d.webLinks ++ data.toList }

theorem Keeps.fills {d filled : Document} (h : Keeps d filled) (schema : Schema)
    (viewUrl : Option String) : Fills schema viewUrl d (addLinks viewUrl filled) := by
  refine ⟨filled, none, h, (fun link hnone => absurd hnone (Option.not_mem_none link)), ?_⟩
  rw [Option.toList_none, List.append_nil, ← h.links]

theorem dataCite_fills (schema : Schema) (viewUrl : Option String) {d filled : Document}
    (h : Keeps d filled) : Fills schema viewUrl d (finish viewUrl filled) :=
  (h.trans (.of_same rfl rfl rfl rfl : Keeps filled (fillYear filled))).fills schema viewUrl

theorem dublinCore_fills (viewUrl : Option String) (metadata : Element) (d : Document) :
    Fills .dublinCore viewUrl d (DublinCore.map viewUrl metadata d) := by
  rw [DublinCore.map]
  refine Keeps.fills ?_ .dublinCore viewUrl
  exact ⟨rfl, rfl, List.prefix_append _ _, rfl⟩

theorem Keeps.fills_data {d filled : Document} (h : Keeps d filled) (viewUrl : Option String)
    (metadata : Element) :
    Fills .iso19139 viewUrl d (addLinks viewUrl (addDataLink metadata filled)) := by
  refine ⟨filled, dataLink metadata filled.mainTitle?, h,
    (fun link hlink => ⟨rfl, dataLink_type hlink⟩), ?_⟩
  rw [addDataLink, h.links]

theorem iso19139_fills (viewUrl : Option String) (metadata : Element) (d : Document) :
    Fills .iso19139 viewUrl d (Iso19139.map viewUrl metadata d) := by
  have hdescribed (identified : Document) (h : Keeps d identified) :=
    (h.trans (addFileIdentifier_keeps metadata identified)).trans
      (mapDescription_keeps metadata _)
  unfold Iso19139.map
  cases (metadata.child? "identificationInfo").bind fun i => i.children.head? with
  | none => exact (hdescribed d (.refl d)).fills_data viewUrl metadata
  | some identification =>
    have hidentified := mapIdentification_keeps identification d
    exact (hdescribed _ hidentified).fills_data viewUrl metadata

theorem map_fills (schema : Schema) (viewUrl : Option String) (metadata : Element) (d : Document) :
    Fills schema viewUrl d (schema.map viewUrl metadata d) := by
  have hcommon := mapCommon_keeps (resourceOf metadata) d
  have hfunders := hcommon.trans (mapFunders_keeps (resourceOf metadata) _)
  cases schema with
  | dataCite2 => exact dataCite_fills _ viewUrl (hfunders.trans (.of_same rfl rfl rfl rfl))
  | dataCite3 => exact dataCite_fills _ viewUrl (hfunders.trans (.of_same rfl rfl rfl rfl))
  | dataCite4 => exact dataCite_fills _ viewUrl (hcommon.trans (.of_same rfl rfl rfl rfl))
  | dublinCore => exact dublinCore_fills viewUrl metadata d
  | iso19139 => exact iso19139_fills viewUrl metadata d

/-! The document of a record -/

/-- The links of a document: the logo of the provider if there is one, at most one link to the data,
the links to related resources, and at most one link to the resource itself. -/
structure Linked (context : Context) (schema : Schema) (d : Document) (data : Option WebLink)
    (related : List WebLink) (view : Option WebLink) : Prop where
  all : d.webLinks =
    (context.logoUrl.map logoLink).toList ++ data.toList ++ related ++ view.toList
  data : ∀ link ∈ data, schema = .iso19139 ∧ link.linkType = .researchData
  related : List.Forall₂ Follows (d.relatedIdentifiers.filter leadsOn) related
  viewed : view.isSome =
    (context.viewUrl.isSome || d.resourceIdentifier.any fun i => leads i.identifierType)
  view : ∀ link ∈ view, link.linkType = .viewUrl

/-- The document of a record that was mapped by some schema. -/
structure Shaped (context : Context) (schema : Schema) (r : Record) (d : Document) : Prop where
  identifier : d.identifier = r.identifier
  named : d.identifier ≠ ""
  repository : d.repositoryIdentifier = context.repository
  subjects : (r.header.setSpecs.map fun value => ({ value } : Subject)) <+: d.subjects
  links : ∃ data related view, Linked context schema d data related view

theorem transform_shaped {w : Crosswalk} {r : Record} {d : Document} (hpresent : r.deleted = false)
    (hd : w.transform r = .ok (some d)) :
    ∃ schema, w.schemaFor r = .ok schema ∧ Shaped w.context schema r d := by
  obtain ⟨hsome, metadata, schema, _, hschema, rfl⟩ := mapped_of_document w hpresent hd
  obtain ⟨filled, data, hkeeps, hdata, hmap⟩ :=
    map_fills schema w.context.viewUrl metadata (outline w.context r.header)
  have hidentifier : filled.identifier = r.identifier := hkeeps.identifier
  refine ⟨schema, hschema, ?_⟩
  rw [hmap]
  exact {
    identifier := hidentifier
    named := by
      intro hempty
      rw [hidentifier.symm.trans hempty] at hsome
      cases hsome
    repository := hkeeps.repository
    subjects := hkeeps.subjects
    links := ⟨data, _, _, {
      all := rfl
      data := hdata
      related := relatedLinks_follow filled.relatedIdentifiers
      viewed := viewLink_isSome filled.identifier filled.resourceIdentifier w.context.viewUrl
      view := fun link hlink => viewLink_type hlink }⟩ }

/-! The name of the repository -/

theorem transform_repository {w : Crosswalk} {r : Record} {d : Document}
    (hd : w.transform r = .ok (some d)) : d.repositoryIdentifier = w.context.repository := by
  cases hdeleted : r.deleted with
  | false =>
    obtain ⟨schema, _, hshaped⟩ := transform_shaped hdeleted hd
    exact hshaped.repository
  | true =>
    cases hsome : r.identifier.isEmpty with
    | true =>
      rw [transform_nameless w hsome] at hd
      cases hd
    | false =>
      rw [transform_gone w hsome hdeleted] at hd
      have hsubstitute := Except.ok.inj hd
      unfold substitute at hsubstitute
      split at hsubstitute
      · cases hsubstitute
      · rw [← Option.some.inj hsubstitute]
        rfl

theorem nonEmpty_ne_empty {s name : String} (h : Text.nonEmpty s = some name) : name ≠ "" := by
  unfold Text.nonEmpty at h
  split at h
  · cases h
  · next hs =>
    rw [← Option.some.inj h]
    rintro rfl
    exact hs rfl

theorem parseName_ne_empty {body name : String}
    (h : Repository.parseName body = .ok (some name)) : name ≠ "" := by
  unfold Repository.parseName at h
  split at h
  · obtain ⟨e, _, hlead⟩ := Option.bind_eq_some_iff.mp (Except.ok.inj h)
    exact nonEmpty_ne_empty hlead
  · cases h

theorem nameOfAnswer_ne_empty (answer : Except Error String) :
    Repository.nameOfAnswer answer ≠ "" := by
  have hunknown : Repository.unknownName ≠ "" := by decide
  unfold Repository.nameOfAnswer
  split
  · next name hname =>
    cases answer with
    | error e => cases hname
    | ok body => exact parseName_ne_empty hname
  · exact hunknown
  · exact hunknown

variable {σ τ : Type} {source : Source σ}

theorem resolve_named (source : Source σ) (host : Option String) (s : Session σ) :
    (Harvester.resolve source host s).1.2 ≠ "" := by
  cases host with
  | none =>
    change Repository.unknownName ≠ ""
    decide
  | some host => exact nameOfAnswer_ne_empty _

/-- Whatever was done with a harvester, its repository has a name. -/
theorem reached_named {last : Settings} {h : Harvester} (hreached : Reached source last h) :
    h.provider ≠ "" := by
  induction hreached with
  | created settings state => exact resolve_named source _ _
  | @set last h hpast settings s ih =>
    rcases setSettings_resolved source settings h s with ⟨_, _, hprovider⟩ | hnew
    · rwa [hprovider]
    · have hprovider := congrArg Prod.snd hnew
      exact fun hempty => resolve_named source _ _ (hprovider.symm.trans hempty)
  | ran hpast sink limit s s' state state' result hrun ih =>
    rw [harvestEach_harvester hrun]
    exact ih

/-- Every document that goes to the sink is that of a record. -/
theorem stage_document {w : Crosswalk} {sink : Sink τ} {r : Run σ τ} {d : Document}
    (hd : due (stage source w sink r) = some d) : ∃ record, w.transform record = .ok (some d) := by
  have hwent := went source w sink r
  generalize stage source w sink r = last at *
  generalize r.step source w sink = p at hwent
  cases hwent with
  | finished => cases hd
  | failed => cases hd
  | omitted => cases hd
  | dropped => cases hd
  | taken fetches l record d' hcall hrecord hsink =>
    cases hd
    exact ⟨record, hrecord⟩
  | refused fetches l record d' e hcall hrecord hsink =>
    cases hd
    exact ⟨record, hrecord⟩

theorem stages_documents {w : Crosswalk} {sink : Sink τ} (limit : ℕ) (p : Run.Progress σ τ) :
    ∀ d ∈ documents (stages source w sink limit p),
      ∃ record, w.transform record = .ok (some d) := by
  induction limit generalizing p with
  | zero => simp [stages, documents, deliveries]
  | succ limit ih =>
    cases p with
    | ended result r => simp [stages, documents, deliveries]
    | going r =>
      intro d hd
      rw [stages, documents_cons, List.mem_append, Option.mem_toList] at hd
      exact hd.elim stage_document (ih _ d)

/-- All documents of a run are from the repository of the harvester, and it has a name. -/
theorem reached_documents {last : Settings} {h : Harvester} (hreached : Reached source last h)
    (sink : Sink τ) (limit : ℕ) (s : Session σ) (state : τ) :
    ∀ d ∈ documents (course source sink limit h s state),
      d.repositoryIdentifier = h.provider ∧ d.repositoryIdentifier ≠ "" := by
  intro d hd
  rcases harvestEach_cases source sink limit h s state with
    ⟨e, _, _, hnone⟩ | ⟨w, query, hw, hquery⟩
  · rw [hnone] at hd
    cases hd
  · rw [course_eq source sink limit s state hw hquery, documents_cons] at hd
    obtain ⟨record, hrecord⟩ := stages_documents limit _ d hd
    have hcontext := context_of_settings hw (reached_coherent hreached)
    have hprovider : d.repositoryIdentifier = h.provider := by
      rw [transform_repository hrecord, hcontext]
      rfl
    exact ⟨hprovider, hprovider ▸ reached_named hreached⟩

/-- The document of a record that is not deleted has the identifier of the record, which is not
empty, and the name of the repository. Its subjects begin with the set specs. Its links are one to
the logo of the provider if there is a logo, perhaps one to the data for ISO 19139, one for each
related identifier that is a DOI or URL, in their order, and at last one to the resource if there is
a view URL or the identifier of the resource is a DOI or URL. In a run the name of the repository is
never empty. -/
theorem document_shape :
    (∀ (w : Crosswalk) (r : Record) (d : Document), r.deleted = false →
      w.transform r = .ok (some d) →
        ∃ schema, w.schemaFor r = .ok schema ∧ Shaped w.context schema r d) ∧
    ∀ {σ τ : Type} (source : Source σ) (last : Settings) (h : Harvester),
      Reached source last h →
        ∀ (sink : Sink τ) (limit : ℕ) (s : Session σ) (state : τ),
          ∀ d ∈ documents (course source sink limit h s state),
            d.repositoryIdentifier = h.provider ∧ d.repositoryIdentifier ≠ "" := by
  constructor
  · intro w r d hpresent hd
    exact transform_shaped hpresent hd
  · intro σ τ source last h hreached sink limit s state
    exact reached_documents hreached sink limit s state

/-! A paper with a logo, a relation that leads somewhere and one that does not -/

def paper : Element :=
  .mk "dc" none []
    [.element (.mk "relation" none [] [.text "Part 1"]),
      .element (.mk "relation" none [] [.text "doi:10.1/b"]),
      .element (.mk "identifier" none [] [.text "10.1/a"]),
      .element (.mk "subject" none [] [.text "ice"])]

def paperContext : Context := { repository := "R", logoUrl := some "l" }

def paperRecord : Record := ⟨{ identifier := "a", setSpecs := ["s"] }, some paper⟩

def paperDocument : Document where
  identifier := "a"
  repositoryIdentifier := "R"
  resourceIdentifier := some ⟨"10.1/a", some "DOI"⟩
  subjects := [{ value := "s" }, { value := "ice" }]
  relatedIdentifiers := [{ value := "doi:10.1/b", identifierType := "DOI" }]
  webLinks := [⟨"Logo", "l", .providerLogo⟩, ⟨relatedName, "https://doi.org/10.1/b", .related⟩,
    ⟨viewName, "https://doi.org/10.1/a", .viewUrl⟩]

theorem paper_mapped : (Crosswalk.mk (.bound .dublinCore) paperContext).transform paperRecord =
    .ok (some paperDocument) := by
  rfl

/-- The paper has three links, and the documents of a run name the repository. -/
theorem paper_shaped :
    (Crosswalk.mk (.bound .dublinCore) paperContext).transform paperRecord =
        .ok (some paperDocument) ∧
      Shaped paperContext .dublinCore paperRecord paperDocument ∧
      Reached (.fixed offering) keeper.settings keeper ∧
      (documents (course (.fixed offering) .collect 4 keeper ⟨(), true⟩ [])).map
        Document.repositoryIdentifier = ["Unknown", "Unknown"] ∧
      keeper.provider ≠ "" := by
  have hcreated : Reached (.fixed offering) keeper.settings
      (Harvester.create (.fixed offering) keeper.settings ()).1 :=
    .created keeper.settings ()
  rw [keeper_created] at hcreated
  obtain ⟨schema, hschema, hshaped⟩ := document_shape.1 _ paperRecord _ rfl paper_mapped
  cases hschema
  have hdocuments := Interruption.keeper_documents offering_page
  have hnamed := document_shape.2 (.fixed offering) _ _ hcreated .collect 4 ⟨(), true⟩ []
  refine ⟨paper_mapped, hshaped, hcreated, ?_, ?_⟩
  · rw [hdocuments]
    rfl
  · rw [hdocuments] at hnamed
    obtain ⟨hprovider, hne⟩ := hnamed _ (List.mem_cons_self ..)
    exact hprovider ▸ hne

end Harvest.Shape
