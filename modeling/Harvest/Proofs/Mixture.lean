import Harvest.Proofs.Answer
import Harvest.Proofs.Renewal

/-!
Two ways to harvest a list of one schema. Records are mapped by the schema they declare, or all by
the schema of the prefix. Where these are the same, nothing in a run tells which of the two it is.
-/
namespace Harvest.Mixture

open Xml Crosswalk Answer Lifetime Course

/-! One record -/

/-- Crosswalks with the same context answer alike unless they map a record by other schemas. -/
theorem transform_congr {w w' : Crosswalk} {r : Record} (hcontext : w.context = w'.context)
    (hschema : r.identifier.isEmpty = false → r.deleted = false → r.metadata.isSome = true →
      w.schemaFor r = w'.schemaFor r) :
    w.transform r = w'.transform r := by
  cases kind r with
  | nameless hnone => rw [transform_nameless w hnone, transform_nameless w' hnone]
  | gone hsome hdeleted =>
    rw [transform_gone w hsome hdeleted, transform_gone w' hsome hdeleted, hcontext]
  | bare hsome hpresent hnone =>
    rw [transform_bare w hsome hpresent hnone, transform_bare w' hsome hpresent hnone]
  | full hsome hpresent metadata hmetadata =>
    have hsame := hschema hsome hpresent (by rw [hmetadata]; rfl)
    rw [transform_full w hsome hpresent hmetadata, transform_full w' hsome hpresent hmetadata,
      hsame, hcontext]

theorem schemaFor_declared (context : Context) {r : Record} {schema : Schema}
    (hschema : r.schema? = some schema) :
    (Crosswalk.mk .declared context).schemaFor r = .ok schema := by
  simp only [Crosswalk.schemaFor, hschema]

theorem transform_declared (context : Context) {r : Record} {schema : Schema}
    (hschema : r.schema? = some schema) :
    (Crosswalk.mk .declared context).transform r =
      (Crosswalk.mk (.bound schema) context).transform r :=
  transform_congr rfl fun _ _ _ => schemaFor_declared context hschema

theorem transform_undeclared (context : Context) {r : Record} (hnone : r.schema? = none)
    (hsome : r.identifier.isEmpty = false) (hpresent : r.deleted = false)
    (hmetadata : r.metadata.isSome = true) :
    (Crosswalk.mk .declared context).transform r =
      .error (.unknownSchema r.identifier r.schemaLocation?) := by
  obtain ⟨metadata, hmetadata⟩ := Option.isSome_iff_exists.mp hmetadata
  rw [transform_full _ hsome hpresent hmetadata, Crosswalk.schemaFor]
  simp only [hnone]
  rfl

/-! A run with either of two crosswalks -/

variable {σ τ : Type}

theorem yielded_cons (last : Stage) (seen : List Stage) :
    yielded (last :: seen) = last.call.record?.toList ++ yielded seen := by
  cases h : last.call.record? with
  | none => simp [yielded, calls, given, h]
  | some record => simp [yielded, calls, given, h]

section

variable {source : Source σ} {w w' : Crosswalk} {sink : Sink τ}

/-- A step looks at the crosswalk only for the record that comes. -/
theorem step_congr {r : Run σ τ}
    (hsame : ∀ record ∈ (stage source w sink r).call.record?,
      w.transform record = w'.transform record) :
    stage source w sink r = stage source w' sink r ∧
      r.step source w sink = r.step source w' sink := by
  rcases hnext : r.cursor.next source r.session with ⟨answer, c, s⟩
  obtain ⟨fetches, hcall⟩ := call_next hnext
  rcases answer with _ | e | record
  · simp only [stage, hcall, Event.record?, Option.bind_none, Run.step, hnext, and_self]
  · simp only [stage, hcall, Event.record?, Option.bind_none, Run.step, hnext, and_self]
  · have hrecord : w.transform record = w'.transform record :=
      hsame record (by simp only [stage, hcall, Event.record?, Option.mem_some])
    constructor
    · simp only [stage, hcall, Event.record?, Option.bind_some, handed, hrecord]
    · simp only [Run.step, hnext, Run.takeRecord, hrecord]

/-- Crosswalks that answer alike on the records of a run make the same run. -/
theorem run_congr (limit : ℕ) (p : Run.Progress σ τ)
    (hsame : ∀ record ∈ yielded (stages source w sink limit p),
      w.transform record = w'.transform record) :
    stages source w sink limit p = stages source w' sink limit p ∧
      advance source w sink limit p = advance source w' sink limit p := by
  induction limit generalizing p with
  | zero => exact ⟨rfl, rfl⟩
  | succ limit ih =>
    cases p with
    | ended result r => exact ⟨rfl, rfl⟩
    | going r =>
      rw [stages, yielded_cons] at hsame
      have hnow : ∀ record ∈ (stage source w sink r).call.record?,
          w.transform record = w'.transform record := fun record hrecord =>
        hsame record (List.mem_append_left _ (Option.mem_toList.mpr hrecord))
      obtain ⟨hstage, hstep⟩ := step_congr hnow
      obtain ⟨hstages, hadvance⟩ := ih (r.step source w sink) fun record hrecord =>
        hsame record (List.mem_append_right _ hrecord)
      constructor
      · rw [stages, stages, hstages, hstage, hstep]
      · rw [advance, advance, hadvance, hstep]

end

/-! Harvesters that differ in the mode -/

/-- Where the schema of a prefix can be mapped from, it does not matter whether any other schema
would be valid too. -/
theorem validate_known (f : Formats) (host : Option String) {chosen : Option String}
    {schema : Schema} (hschema : chosen.bind f.schema? = some schema) :
    (∃ e, ∀ mixed, f.validate host chosen mixed = .error e) ∨
      ∀ mixed, f.validate host chosen mixed = .ok (some schema) := by
  obtain ⟨p, rfl, hp⟩ := Option.bind_eq_some_iff.mp hschema
  obtain ⟨url, hurl, hknown⟩ := Option.bind_eq_some_iff.mp hp
  unfold Formats.validate
  split
  · exact Or.inl ⟨_, fun _ => rfl⟩
  · next q hq =>
    obtain ⟨hq, _⟩ := Option.filter_eq_some_iff.mp hq
    cases hq
    split
    · exact Or.inl ⟨_, fun _ => rfl⟩
    · split
      · exact Or.inl ⟨_, fun _ => rfl⟩
      · right
        intro mixed
        simp only [hurl, hknown]

/-- The harvester in mixed mode or not, before its first run. -/
def inMode (h : Harvester) (mixed : Bool) : Harvester :=
  { h with settings := { h.settings with mixedSchemas := mixed }, bound := none }

/-- The crosswalk of a harvester in mixed mode or not, if the prefix has this schema. -/
def modeCrosswalk (h : Harvester) (schema : Schema) (mixed : Bool) : Crosswalk where
  mapping := if mixed then .declared else .bound schema
  context := .ofSettings h.provider h.settings

theorem create_inMode (source : Source σ) (settings : Settings) (state : σ) (mixed : Bool) :
    Harvester.create source { settings with mixedSchemas := mixed } state =
      (inMode (Harvester.create source settings state).1 mixed,
        (Harvester.create source settings state).2) :=
  rfl

section

variable {h : Harvester} {schema : Schema}

theorem validate_inMode (hschema : h.settings.chosenPrefix?.bind h.formats.schema? = some schema) :
    (∃ e, ∀ mixed, (inMode h mixed).validate = .error e) ∨
      ∀ mixed, (inMode h mixed).validate = .ok (some schema) := by
  have hvalidate (mixed : Bool) : (inMode h mixed).validate = h.settings.validateDates.bind fun _ =>
      h.formats.validate h.settings.chosenHost? h.settings.chosenPrefix? mixed := rfl
  simp only [hvalidate]
  cases h.settings.validateDates with
  | error e => exact Or.inl ⟨e, fun _ => rfl⟩
  | ok _ => exact validate_known h.formats h.settings.chosenHost? hschema

/-- Both modes are refused alike, or they have these crosswalks. -/
theorem crosswalk_inMode (hschema : h.settings.chosenPrefix?.bind h.formats.schema? = some schema) :
    (∃ e, ∀ mixed, (inMode h mixed).crosswalkToUse = .error e) ∨
      ∀ mixed, (inMode h mixed).crosswalkToUse = .ok (modeCrosswalk h schema mixed) := by
  rcases validate_inMode hschema with ⟨e, hrefused⟩ | hvalid
  · left
    refine ⟨e, fun mixed => ?_⟩
    change (inMode h mixed).crosswalk = _
    rw [Harvester.crosswalk, hrefused]
    rfl
  · right
    intro mixed
    change (inMode h mixed).crosswalk = _
    rw [Harvester.crosswalk, hvalid]
    cases mixed with
    | true => rfl
    | false => rfl

end

/-- What a harvest comes to: its documents and report, or its error, and the session after it. -/
def answer (source : Source σ) (limit : ℕ) (h : Harvester) (s : Session σ) :
    Option (Except Error (List Document × Report) × Session σ) :=
  (h.harvest source limit s).map fun (result, _, s) => (result, s)

theorem answer_refused (source : Source σ) (limit : ℕ) {h : Harvester} (s : Session σ) {e : Error}
    (he : h.crosswalkToUse = .error e) :
    answer source limit h s = some (.error e, { s with aborted := false }) := by
  simp only [answer, Harvester.harvest, Harvester.harvestEach, he]
  rfl

theorem answer_run (source : Source σ) (limit : ℕ) {h : Harvester} (s : Session σ) {w : Crosswalk}
    (hw : h.crosswalkToUse = .ok w) :
    answer source limit h s =
      match ListQuery.ofSettings h.settings with
      | .error e => some (.error e, { s with aborted := false })
      | .ok query =>
        (outcome (advance source w .collect limit
          (Run.start source query { s with aborted := false } []))).map fun (result, r) =>
            (result.map fun report => (r.sink, report), r.session) := by
  cases hquery : ListQuery.ofSettings h.settings with
  | error e =>
    simp only [answer, Harvester.harvest, Harvester.harvestEach, hw, hquery]
    rfl
  | ok query =>
    simp only [answer, Harvester.harvest, harvestEach_eq source .collect limit s [] hw hquery,
      Option.map_map]
    rfl

theorem schemaFor_modeCrosswalk (h : Harvester) {r : Record} {schema : Schema}
    (hschema : r.schema? = some schema) (mixed : Bool) :
    (modeCrosswalk h schema mixed).schemaFor r = .ok schema := by
  cases mixed with
  | true => exact schemaFor_declared _ hschema
  | false => rfl

theorem transform_modeCrosswalk (h : Harvester) {r : Record} {schema : Schema}
    (hdeclared : r.identifier.isEmpty = false → r.deleted = false → r.metadata.isSome = true →
      r.schema? = some schema) (mixed mixed' : Bool) :
    (modeCrosswalk h schema mixed).transform r = (modeCrosswalk h schema mixed').transform r := by
  refine transform_congr rfl ?_
  intro hsome hpresent hmetadata
  have hschema := hdeclared hsome hpresent hmetadata
  rw [schemaFor_modeCrosswalk h hschema mixed, schemaFor_modeCrosswalk h hschema mixed']

/-- Where the records of a run that matter declare the schema of the prefix, the harvest comes to
the same in both modes. -/
theorem answer_inMode (source : Source σ) (limit : ℕ) {h : Harvester} (s : Session σ)
    {schema : Schema} (hschema : h.settings.chosenPrefix?.bind h.formats.schema? = some schema)
    (mixed : Bool)
    (hdeclared : ∀ r ∈ yielded (course source .collect limit (inMode h mixed) s []),
      r.identifier.isEmpty = false → r.deleted = false → r.metadata.isSome = true →
        r.schema? = some schema) :
    answer source limit (inMode h true) s = answer source limit (inMode h false) s := by
  rcases crosswalk_inMode hschema with ⟨e, hrefused⟩ | hw
  · rw [answer_refused source limit s (hrefused true),
      answer_refused source limit s (hrefused false)]
  · have hquery (mixed : Bool) : ListQuery.ofSettings (inMode h mixed).settings =
        ListQuery.ofSettings h.settings := rfl
    rw [answer_run source limit s (hw true), answer_run source limit s (hw false), hquery, hquery]
    cases hsome : ListQuery.ofSettings h.settings with
    | error e => rfl
    | ok query =>
      rw [course_eq source .collect limit s [] (hw mixed) ((hquery mixed).trans hsome),
        yielded_cons] at hdeclared
      have hrun (mixed' : Bool) := (run_congr limit _ fun record hrecord =>
        transform_modeCrosswalk h (hdeclared record (List.mem_append_right _ hrecord)) mixed
          mixed').2
      simp only [← hrun true, ← hrun false]

/-- In mixed mode a record that declares a schema has the answer of the crosswalk of that schema. A
record that declares none has the answer of all these crosswalks, if anything else is wrong with it
or it is deleted, and otherwise an error that tells what it declares. So a harvest by a prefix whose
schema can be mapped from comes to the same in both modes, if the records that might be mapped
declare this schema. It is enough that they do in one of the two modes. -/
theorem mixed_as_bound :
    (∀ (context : Context) (r : Record),
      (∀ schema, r.schema? = some schema →
        (Crosswalk.mk .declared context).transform r =
          (Crosswalk.mk (.bound schema) context).transform r) ∧
      (r.schema? = none →
        (r.identifier.isEmpty = true ∨ r.deleted = true ∨ r.metadata = none →
          ∀ schema, (Crosswalk.mk .declared context).transform r =
            (Crosswalk.mk (.bound schema) context).transform r) ∧
        (r.identifier.isEmpty = false → r.deleted = false → r.metadata.isSome = true →
          (Crosswalk.mk .declared context).transform r =
            .error (.unknownSchema r.identifier r.schemaLocation?)))) ∧
    ∀ {σ : Type} (source : Source σ) (settings : Settings) (state : σ) (limit : ℕ)
      (schema : Schema) (mixed : Bool),
      let new (mixed : Bool) :=
        Harvester.create source { settings with mixedSchemas := mixed } state
      (new mixed).1.settings.chosenPrefix?.bind (new mixed).1.formats.schema? = some schema →
      (∀ r ∈ yielded (course source .collect limit (new mixed).1 (new mixed).2 []),
        r.identifier.isEmpty = false → r.deleted = false → r.metadata.isSome = true →
          r.schema? = some schema) →
      answer source limit (new true).1 (new true).2 =
        answer source limit (new false).1 (new false).2 := by
  constructor
  · intro context r
    refine ⟨fun schema => transform_declared context, fun hnone => ⟨?_, ?_⟩⟩
    · intro hwrong schema
      refine transform_congr rfl fun hsome hpresent hmetadata => ?_
      rcases hwrong with hempty | hdeleted | hbare
      · rw [hsome] at hempty
        cases hempty
      · rw [hpresent] at hdeleted
        cases hdeleted
      · rw [hbare] at hmetadata
        cases hmetadata
    · exact transform_undeclared context hnone
  · intro σ source settings state limit schema mixed new hschema hdeclared
    have hnew (mixed : Bool) : new mixed = (inMode (Harvester.create source settings state).1 mixed,
        (Harvester.create source settings state).2) :=
      create_inMode source settings state mixed
    simp only [hnew] at hschema hdeclared ⊢
    exact answer_inMode source limit _ hschema mixed hdeclared

/-! A list in ISO 19139 with a record that has no identifier -/

def geoUrl : String := "isotc211.org/2005/gmd"

def geoFormats : String :=
  "<r><metadataFormat><metadataPrefix>p</metadataPrefix><schema>isotc211.org/2005/gmd</schema>" ++
    "</metadataFormat></r>"

def geoBody : String :=
  "<r><ListRecords><record><header><identifier>a</identifier></header><metadata>" ++
    "<m schemaLocation=\"isotc211.org/2005/gmd\"><identificationInfo><i><CI_Citation>" ++
    "<title>Land</title></CI_Citation></i></identificationInfo></m></metadata></record><record/>" ++
    "</ListRecords></r>"

def geoMetadata : Xml.Element :=
  .mk "m" none [⟨none, "schemaLocation", geoUrl⟩]
    [.element (.mk "identificationInfo" none [] [.element (.mk "i" none []
      [.element (.mk "CI_Citation" none [] [.element (.mk "title" none [] [.text "Land"])])])])]

def geoRecord : Record := ⟨{ identifier := "a" }, some geoMetadata⟩

def geoDocument : Document :=
  { identifier := "a", repositoryIdentifier := "Unknown", titles := [{ value := "Land" }] }

def geoPage : Page := { records := [geoRecord, ⟨{}, none⟩] }

def geoSettings : Settings := { hostUrl := some "h", metadataPrefix := some "p" }

def geoQuery : ListQuery := { hostUrl := "h", metadataPrefix := "p" }

def geo (url : String) : Except Error String :=
  if url = Request.metadataFormats "h" then .ok geoFormats
  else if url = geoQuery.url then .ok geoBody
  else .error .malformedXml

def geoHarvester : Harvester where
  settings := geoSettings
  formats := ⟨[("p", geoUrl)]⟩
  provider := Repository.unknownName

theorem ofAnswer_geoFormats : Formats.ofAnswer (.ok geoFormats) = geoHarvester.formats := by
  decide +kernel

set_option maxRecDepth 20000 in
theorem ofAnswer_geoBody : Page.ofAnswer (.ok geoBody) = (geoPage, .noRecords) := by
  rfl

theorem geo_created (mixed : Bool) :
    Harvester.create (.fixed geo) { geoSettings with mixedSchemas := mixed } () =
      (inMode geoHarvester mixed, ⟨(), false⟩) := by
  have hformats : Formats.ofAnswer (geo (Request.metadataFormats "h")) = geoHarvester.formats := by
    rw [geo, if_pos rfl, ofAnswer_geoFormats]
  have hname : geo (Request.identify "h") = .error .malformedXml := by
    have hother : Request.identify "h" ≠ Request.metadataFormats "h" := by decide
    have hother' : Request.identify "h" ≠ geoQuery.url := by decide
    rw [geo, if_neg hother, if_neg hother']
  rw [create_inMode, Renewal.create_fixed (by decide) hformats hname]
  rfl

theorem geo_page : Page.ofAnswer (geo geoQuery.url) = (geoPage, .noRecords) := by
  have hother : geoQuery.url ≠ Request.metadataFormats "h" := by decide
  rw [geo, if_neg hother, if_pos rfl, ofAnswer_geoBody]

theorem geo_crosswalk : (inMode geoHarvester false).crosswalkToUse =
    .ok (modeCrosswalk geoHarvester .iso19139 false) := by
  decide

theorem geo_query : ListQuery.ofSettings (inMode geoHarvester false).settings = .ok geoQuery := by
  rfl

theorem geo_declared :
    ∀ r ∈ yielded (course (.fixed geo) .collect 3 (inMode geoHarvester false) ⟨(), false⟩ []),
      r.identifier.isEmpty = false → r.deleted = false → r.metadata.isSome = true →
        r.schema? = some .iso19139 := by
  rw [course_eq _ _ _ _ _ geo_crosswalk geo_query, start_fixed geo_page rfl, yielded_cons]
  decide +kernel

def geoReport : Report := { documents := 1, skipped := 1, version := some "a", pages := 1 }

theorem geo_answer : (answer (.fixed geo) 3 (inMode geoHarvester false) ⟨(), false⟩).map Prod.fst =
    some (.ok ([geoDocument], geoReport)) := by
  rw [answer_run _ _ _ geo_crosswalk, geo_query]
  simp only [start_fixed geo_page rfl]
  decide +kernel

/-- The list comes to one document in both modes, and so does its record by itself. The error for a
record without a schema names the record. -/
theorem geo_in_both_modes :
    let source : Source Unit := .fixed geo
    let new (mixed : Bool) :=
      Harvester.create source { geoSettings with mixedSchemas := mixed } ()
    (new false).1.settings.chosenPrefix?.bind (new false).1.formats.schema? = some .iso19139 ∧
      answer source 3 (new true).1 (new true).2 = answer source 3 (new false).1 (new false).2 ∧
      (answer source 3 (new true).1 (new true).2).map Prod.fst =
        some (.ok ([geoDocument], geoReport)) ∧
      (Crosswalk.mk .declared { repository := "Unknown" }).transform geoRecord =
        .ok (some geoDocument) ∧
      (Crosswalk.mk .declared { repository := "R" }).transform
        ⟨{ identifier := "b" }, some (.mk "m" none [] [])⟩ = .error (.unknownSchema "b" none) := by
  intro source new
  have hnew (mixed : Bool) : new mixed = (inMode geoHarvester mixed, ⟨(), false⟩) :=
    geo_created mixed
  have hschema : (new false).1.settings.chosenPrefix?.bind (new false).1.formats.schema? =
      some .iso19139 := by
    rw [hnew]
    decide
  have hdeclared : ∀ r ∈ yielded (course source .collect 3 (new false).1 (new false).2 []),
      r.identifier.isEmpty = false → r.deleted = false → r.metadata.isSome = true →
        r.schema? = some .iso19139 := by
    rw [hnew]
    exact geo_declared
  have hboth : answer source 3 (new true).1 (new true).2 =
      answer source 3 (new false).1 (new false).2 :=
    mixed_as_bound.2 source geoSettings () 3 .iso19139 false hschema hdeclared
  refine ⟨hschema, hboth, ?_, ?_, ?_⟩
  · rw [hboth, hnew]
    exact geo_answer
  · rw [(mixed_as_bound.1 { repository := "Unknown" } geoRecord).1 .iso19139 (by decide +kernel)]
    rfl
  · exact ((mixed_as_bound.1 { repository := "R" } _).2 (by decide)).2 rfl rfl rfl

end Harvest.Mixture
