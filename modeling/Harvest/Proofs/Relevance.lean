import Harvest.Proofs.Answer
import Harvest.Proofs.Essence

/-!
What of a record counts for its document. No mapping asks for anything but what counts of a metadata
tree: field by field, and so for each schema, what is left of a tree has the document of the whole.
The way metadata are written out, with remarks, with texts in pieces and with namespaces of any
choice, is therefore no part of the document.
-/
namespace Harvest.Relevance

open Xml Essence Answer Crosswalk

variable (e : Element)

section DataCite

open DataCite

@[simp] theorem identifierOf_essence (typeName : String) :
    identifierOf typeName (essence e) = identifierOf typeName e := by
  simp [identifierOf]

@[simp] theorem titleOf_essence : titleOf (essence e) = titleOf e := by
  simp [titleOf]

@[simp] theorem nameIdentifierOf_essence : nameIdentifierOf (essence e) = nameIdentifierOf e := by
  simp [nameIdentifierOf]

@[simp] theorem personOf_essence (nameTag : String) :
    personOf nameTag (essence e) = personOf nameTag e := by
  simp [personOf, Option.bind_map, List.filterMap_map]

@[simp] theorem contributorOf_essence : contributorOf (essence e) = contributorOf e := by
  simp [contributorOf]

@[simp] theorem subjectOf_essence : subjectOf (essence e) = subjectOf e := by
  simp [subjectOf]

@[simp] theorem dateOf_essence : DataCite.dateOf (essence e) = DataCite.dateOf e := by
  simp [DataCite.dateOf]

@[simp] theorem descriptionOf_essence : descriptionOf (essence e) = descriptionOf e := by
  simp [descriptionOf]

@[simp] theorem relatedIdentifierOf_essence :
    relatedIdentifierOf (essence e) = relatedIdentifierOf e := by
  simp [relatedIdentifierOf]

@[simp] theorem rightsOf_essence : DataCite.rightsOf (essence e) = DataCite.rightsOf e := by
  simp [DataCite.rightsOf]

@[simp] theorem fundingOf_essence : fundingOf (essence e) = fundingOf e := by
  simp [fundingOf, Option.bind_map]

@[simp] theorem itemsOf_essence (list item : String) :
    itemsOf list item (essence e) = (itemsOf list item e).map essence := by
  unfold itemsOf
  rw [child?_essence]
  cases e.child? list with
  | none => rfl
  | some group => simp

@[simp] theorem textsOf_essence (list item : String) :
    textsOf list item (essence e) = textsOf list item e := by
  simp [textsOf, List.filterMap_map]

@[simp] theorem mapCommon_essence (d : Document) : mapCommon (essence e) d = mapCommon e d := by
  simp [mapCommon, Option.bind_map, List.filterMap_map]

@[simp] theorem contributorsOf_essence : contributorsOf (essence e) = contributorsOf e := by
  simp [contributorsOf, List.filterMap_map]

@[simp] theorem mapFunders_essence (d : Document) : mapFunders (essence e) d = mapFunders e d := by
  simp [mapFunders]

@[simp] theorem singleRights_essence : singleRights (essence e) = singleRights e := by
  simp [singleRights, Option.bind_map]

@[simp] theorem rightsList_essence : rightsList (essence e) = rightsList e := by
  simp [rightsList, List.filterMap_map]

@[simp] theorem resourceTypeOf_essence (filmIsKnown : Bool) :
    DataCite.resourceTypeOf filmIsKnown (essence e) = DataCite.resourceTypeOf filmIsKnown e := by
  simp [DataCite.resourceTypeOf, Option.bind_map]

theorem resourceOf_essence : resourceOf (essence e) = essence (resourceOf e) := by
  unfold resourceOf
  rw [name_essence]
  by_cases hname : e.name == "resource"
  · simp only [hname, if_true]
  · simp only [hname, descendant?_essence]
    cases e.descendant? "resource" with
    | none => rfl
    | some resource => rfl

end DataCite

section Coordinates

@[simp] theorem childCoordinate_essence (tag : String) :
    childCoordinate tag (essence e) = childCoordinate tag e := by
  simp [childCoordinate]

@[simp] theorem pointOfElement_essence : pointOfElement (essence e) = pointOfElement e := by
  simp [pointOfElement]

@[simp] theorem boxOfElement_essence : boxOfElement (essence e) = boxOfElement e := by
  simp [boxOfElement]

@[simp] theorem boxOf_essence : Iso19139.boxOf (essence e) = Iso19139.boxOf e := by
  simp [Iso19139.boxOf]

end Coordinates

section Places

open DataCite

/-- Places are read from what counts alone. -/
structure Sober (p : Places) : Prop where
  point : ∀ e, p.point (essence e) = p.point e
  box : ∀ e, p.box (essence e) = p.box e
  polygons : ∀ e, p.polygons (essence e) = p.polygons e

theorem sober_places2 : Sober places2 where
  point e := by simp [places2]
  box e := by simp [places2]
  polygons e := rfl

theorem sober_places3 : Sober places3 where
  point e := by simp [places3]
  box e := by simp [places3]
  polygons e := rfl

theorem sober_places4 : Sober places4 where
  point e := by simp [places4]
  box e := by simp [places4]
  polygons e := by simp [places4, polygonsOf, List.filterMap_map, Function.comp_def]

theorem placesOf_essence {p : Places} (h : Sober p) : placesOf p (essence e) = placesOf p e := by
  have hplace : ∀ e, placeOf p (essence e) = placeOf p e := by
    intro e
    simp [placeOf, Option.bind_map, h.point, h.box, h.polygons]
  simp [placesOf, Function.comp_def, hplace]

theorem mapKernel2_essence (viewUrl : Option String) (d : Document) :
    mapKernel2 viewUrl (essence e) d = mapKernel2 viewUrl e d := by
  simp only [mapKernel2, resourceOf_essence, mapCommon_essence, mapFunders_essence,
    singleRights_essence, resourceTypeOf_essence, placesOf_essence _ sober_places2]

theorem mapKernel3_essence (viewUrl : Option String) (d : Document) :
    mapKernel3 viewUrl (essence e) d = mapKernel3 viewUrl e d := by
  simp only [mapKernel3, resourceOf_essence, mapCommon_essence, mapFunders_essence,
    rightsList_essence, resourceTypeOf_essence, placesOf_essence _ sober_places3]

theorem mapKernel4_essence (viewUrl : Option String) (d : Document) :
    mapKernel4 viewUrl (essence e) d = mapKernel4 viewUrl e d := by
  simp only [mapKernel4, resourceOf_essence, mapCommon_essence, contributorsOf_essence,
    itemsOf_essence, List.filterMap_map, Function.comp_def, fundingOf_essence,
    rightsList_essence, resourceTypeOf_essence, placesOf_essence _ sober_places4]

end Places

theorem dublinCore_essence (viewUrl : Option String) (d : Document) :
    DublinCore.map viewUrl (essence e) d = DublinCore.map viewUrl e d := by
  simp only [DublinCore.map, childTexts_essence, childText?_essence]

section Iso19139

open Iso19139

@[simp] theorem codeAttribute_essence : codeAttribute (essence e) = codeAttribute e := by
  simp [codeAttribute]

@[simp] theorem codeOf_essence (codeTag : String) :
    codeOf codeTag (essence e) = codeOf codeTag e := by
  simp [codeOf, Option.bind_map]

@[simp] theorem titlesOf_essence : titlesOf (essence e) = titlesOf e := by
  simp [titlesOf]

@[simp] theorem isoDateOf_essence : Iso19139.dateOf (essence e) = Iso19139.dateOf e := by
  simp [Iso19139.dateOf, Option.bind_map]

@[simp] theorem isoIdentifierOf_essence :
    Iso19139.identifierOf (essence e) = Iso19139.identifierOf e := by
  simp [Iso19139.identifierOf, Option.bind_map, ← Option.map_or]

@[simp] theorem partyOf_essence : partyOf (essence e) = partyOf e := by
  simp [partyOf, Option.bind_map]

@[simp] theorem partiesOf_essence : partiesOf (essence e) = partiesOf e := by
  simp [partiesOf, List.filterMap_map]

@[simp] theorem mapCitation_essence (d : Document) :
    mapCitation (essence e) d = mapCitation e d := by
  simp [mapCitation, List.filterMap_map]

@[simp] theorem constraintTexts_essence : constraintTexts (essence e) = constraintTexts e := by
  simp [constraintTexts, List.filterMap_map]

@[simp] theorem extentOf_essence : extentOf (essence e) = extentOf e := by
  simp [extentOf, Option.bind_map]

@[simp] theorem mapIdentification_essence (d : Document) :
    mapIdentification (essence e) d = mapIdentification e d := by
  unfold mapIdentification
  rw [descendant?_essence]
  cases e.descendant? "CI_Citation" with
  | none => simp [List.filterMap_map, List.flatMap_map, Function.comp_def]
  | some citation => simp [List.filterMap_map, List.flatMap_map, Function.comp_def]

@[simp] theorem addFileIdentifier_essence (d : Document) :
    addFileIdentifier (essence e) d = addFileIdentifier e d := by
  simp [addFileIdentifier]

@[simp] theorem dataLink_essence (title : Option String) :
    dataLink (essence e) title = dataLink e title := by
  simp [dataLink, Option.bind_map]

@[simp] theorem mapDescription_essence (d : Document) :
    mapDescription (essence e) d = mapDescription e d := by
  simp [mapDescription, Option.bind_map, List.filterMap_map]

theorem iso19139_essence (viewUrl : Option String) (d : Document) :
    Iso19139.map viewUrl (essence e) d = Iso19139.map viewUrl e d := by
  have hchild : ((essence e).child? "identificationInfo").bind (fun i => i.children.head?) =
      ((e.child? "identificationInfo").bind fun i => i.children.head?).map essence := by
    simp [Option.bind_map, Option.map_bind]
  unfold Iso19139.map
  rw [hchild]
  cases (e.child? "identificationInfo").bind fun i => i.children.head? with
  | none => simp [fillYearOfMetadata, addDataLink]
  | some identification => simp [fillYearOfMetadata, addDataLink]

end Iso19139

theorem map_essence (schema : Schema) (viewUrl : Option String) (d : Document) :
    schema.map viewUrl (essence e) d = schema.map viewUrl e d := by
  cases schema with
  | dataCite2 => exact mapKernel2_essence e viewUrl d
  | dataCite3 => exact mapKernel3_essence e viewUrl d
  | dataCite4 => exact mapKernel4_essence e viewUrl d
  | dublinCore => exact dublinCore_essence e viewUrl d
  | iso19139 => exact iso19139_essence e viewUrl d

/-! What a crosswalk sees -/

/-- What a crosswalk sees of metadata. Where records are mapped by the schema they declare, that is
also the schema location of the root. -/
def visible (m : Mapping) : Element → Element
  | .mk name _ attributes content =>
    .mk name none (attributes.filter fun a => counts a || (m == .declared && locates a))
      (essenceOf content)

theorem essence_of_visible {m : Mapping} {e e' : Element} (h : visible m e = visible m e') :
    essence e = essence e' := by
  have hcounts (attributes : List Attribute) : attributes.filter counts =
      (attributes.filter fun a => counts a || (m == .declared && locates a)).filter counts := by
    rw [List.filter_filter]
    congr 1
    funext a
    cases counts a <;> simp
  cases e with
  | mk name space attributes content =>
    cases e' with
    | mk name' space' attributes' content' =>
      simp only [visible, Element.mk.injEq, true_and] at h
      obtain ⟨hname, hattributes, hcontent⟩ := h
      rw [essence, essence, hname, hcontent, hcounts attributes, hcounts attributes', hattributes]

theorem visible_reworded (m : Mapping) {e e' : Element} (h : Reworded e e') :
    visible m e = visible m e' := by
  cases h with
  | remark name space attributes before after =>
    rw [visible, visible, essenceOf_append (essenceOf_remark after) before]
  | parted name space attributes before after s t =>
    rw [visible, visible, essenceOf_append (essenceOf_parted s t after) before]
  | moved name space space' attributes content => rw [visible, visible]
  | marked name space before after a content hcounts hlocates =>
    simp [visible, hcounts, hlocates]
  | inside name space attributes before after h =>
    rw [visible, visible, essenceOf_append (essenceOf_element (essence_reworded h) after) before]

theorem locationOf_visible (e : Element) :
    Record.locationOf (visible .declared e) = Record.locationOf e := by
  cases e with
  | mk name space attributes content =>
    simp only [Record.locationOf, Element.attribute?, Element.attributeIn?, visible,
      Element.attributes]
    rw [find?_filter_of_imp, find?_filter_of_imp]
    · intro a ha
      simp only [Bool.and_eq_true, beq_iff_eq] at ha
      simp [counts, ha.1]
    · intro a ha
      simp only [Bool.and_eq_true, beq_iff_eq] at ha
      simp [locates, ha.1, ha.2]

/-- Records that look the same are mapped by the same schema. -/
theorem schemaFor_of_visible (w : Crosswalk) {r r' : Record} (hheader : r.header = r'.header)
    (hsame : r.metadata.map (visible w.mapping) = r'.metadata.map (visible w.mapping)) :
    w.schemaFor r = w.schemaFor r' := by
  unfold Crosswalk.schemaFor
  cases hmapping : w.mapping with
  | bound schema => rfl
  | declared =>
    rw [hmapping] at hsame
    have hseen (m : Option Element) :
        m.bind Record.locationOf = (m.map (visible .declared)).bind Record.locationOf := by
      simp [Option.bind_map, locationOf_visible]
    have hlocation : r.schemaLocation? = r'.schemaLocation? := by
      unfold Record.schemaLocation?
      rw [hseen r.metadata, hsame, ← hseen r'.metadata]
    simp only [Record.schema?, Record.identifier, hlocation, hheader]

theorem map_of_visible {m : Mapping} {e e' : Element} (h : visible m e = visible m e')
    (schema : Schema) (viewUrl : Option String) (d : Document) :
    schema.map viewUrl e d = schema.map viewUrl e' d := by
  rw [← map_essence e, essence_of_visible h, map_essence e']

/-- Metadata that look the same are there or missing alike. -/
theorem metadata_of_visible {m : Mapping} {r r' : Record}
    (hsame : r.metadata.map (visible m) = r'.metadata.map (visible m)) :
    (r.metadata = none ∧ r'.metadata = none) ∨
      ∃ e e', r.metadata = some e ∧ r'.metadata = some e' ∧ visible m e = visible m e' := by
  cases hmetadata : r.metadata with
  | none =>
    rw [hmetadata] at hsame
    exact Or.inl ⟨rfl, Option.map_eq_none_iff.mp hsame.symm⟩
  | some e =>
    rw [hmetadata] at hsame
    obtain ⟨e', hmetadata', hseen⟩ := Option.map_eq_some_iff.mp hsame.symm
    exact Or.inr ⟨e, e', rfl, hmetadata', hseen.symm⟩

theorem transform_of_visible (w : Crosswalk) {r r' : Record} (hheader : r.header = r'.header)
    (hsame : r.deleted = true ∨
      r.metadata.map (visible w.mapping) = r'.metadata.map (visible w.mapping)) :
    w.transform r = w.transform r' := by
  have hidentifier : r'.identifier = r.identifier := congrArg Header.identifier hheader.symm
  have hdeleted : r'.deleted = r.deleted := congrArg Header.deleted hheader.symm
  cases kind r with
  | nameless hnone =>
    rw [transform_nameless w hnone, transform_nameless w (hidentifier ▸ hnone)]
  | gone hsome hyes =>
    have hsubstitute : substitute w.context r = substitute w.context r' := by
      simp only [substitute, Record.identifier, Record.datestamp, hheader]
    rw [transform_gone w hsome hyes, transform_gone w (hidentifier ▸ hsome) (hdeleted ▸ hyes),
      hsubstitute]
  | bare hsome hpresent hnone =>
    rcases hsame with hyes | hsame
    · rw [hpresent] at hyes
      cases hyes
    · rcases metadata_of_visible hsame with ⟨_, hnone'⟩ | ⟨e, e', hsome', _⟩
      · rw [transform_bare w hsome hpresent hnone,
          transform_bare w (hidentifier ▸ hsome) (hdeleted ▸ hpresent) hnone', hidentifier]
      · rw [hnone] at hsome'
        cases hsome'
  | full hsome hpresent metadata hmetadata =>
    rcases hsame with hyes | hsame
    · rw [hpresent] at hyes
      cases hyes
    · rcases metadata_of_visible hsame with ⟨hnone, _⟩ | ⟨e, e', he, he', hseen⟩
      · rw [hnone] at hmetadata
        cases hmetadata
      · rw [transform_full w hsome hpresent he,
          transform_full w (hidentifier ▸ hsome) (hdeleted ▸ hpresent) he',
          schemaFor_of_visible w hheader hsame, hheader]
        simp only [map_of_visible hseen]

/-- Two records with the same header have the same answer from every crosswalk, whatever it is, if
they are deleted, or if the crosswalk sees the same of their metadata. In particular the answer
stays the same when the metadata are written otherwise. -/
theorem answer_by_what_is_seen (w : Crosswalk) :
    (∀ r r' : Record, r.header = r'.header →
      (r.deleted = true ∨
        r.metadata.map (visible w.mapping) = r'.metadata.map (visible w.mapping)) →
      w.transform r = w.transform r') ∧
    ∀ (header : Header) (e e' : Element), Reworded e e' →
      w.transform ⟨header, some e⟩ = w.transform ⟨header, some e'⟩ := by
  constructor
  · intro r r' hheader hsame
    exact transform_of_visible w hheader hsame
  · intro header e e' h
    exact transform_of_visible w rfl
      (Or.inr (congrArg some (visible_reworded w.mapping h)))

/-! The same metadata, plain and adorned -/

def location : Attribute where
  space := some Record.schemaSpace
  name := "schemaLocation"
  value := "http://www.openarchives.org/OAI/2.0/oai_dc.xsd"

def plain : Element := .mk "dc" none [location] [.element (.mk "title" none [] [.text "Rivers"])]

def adorned : Element :=
  .mk "dc" (some "o") [⟨some "o", "id", "1"⟩, location]
    [.remark, .element (.mk "title" (some "d") [location] [.text "Riv", .remark, .text "ers"])]

/-- Both have the same document, which has the title; with a remark more it stays the same. -/
theorem adorned_as_plain :
    let w : Crosswalk := { mapping := .declared, context := { repository := "R" } }
    let header : Header := { identifier := "a" }
    let remarked : Element := .mk "dc" none [location]
      ([] ++ .remark :: [.element (.mk "title" none [] [.text "Rivers"])])
    visible w.mapping plain = visible w.mapping adorned ∧ Reworded plain remarked ∧
      w.transform ⟨header, some adorned⟩ = w.transform ⟨header, some plain⟩ ∧
      w.transform ⟨header, some remarked⟩ = w.transform ⟨header, some plain⟩ ∧
      w.transform ⟨header, some plain⟩ =
        .ok (some { identifier := "a", repositoryIdentifier := "R",
                    titles := [{ value := "Rivers" }] }) := by
  intro w header remarked
  have hseen : visible w.mapping plain = visible w.mapping adorned := by rfl
  have hreworded : Reworded plain remarked := .remark "dc" none [location] [] _
  obtain ⟨hsame, hrewrite⟩ := answer_by_what_is_seen w
  refine ⟨hseen, hreworded, ?_, (hrewrite header plain remarked hreworded).symm, ?_⟩
  · exact (hsame ⟨header, some plain⟩ ⟨header, some adorned⟩ rfl
      (Or.inr (congrArg some hseen))).symm
  · rfl

end Harvest.Relevance
