import Harvest.Proofs.Account

/-!
How a harvest ends. An error has one of three causes, and tells which: settings that do not fit the
repository, a list that gives no more records, or a sink that fails. A record or a page that cannot
be read is no cause. A flag that goes up, and stays up, ends the run at its next step, without an
error.
-/
namespace Harvest.Ending

open Fetching Observation Lifetime Course Trail Account

variable {σ τ : Type}

/-- An error of the settings: a bad date, or something missing or not offered. -/
def Unfit : Error → Prop
  | .invalidDate _ => True
  | .settings _ _ => True
  | _ => False

/-! Settings that do not fit -/

theorem validateIfSet_unfit {date : Option String} {e : Error}
    (h : Settings.validateIfSet date = .error e) : Unfit e := by
  cases date with
  | none => cases h
  | some date =>
    rw [Settings.validateIfSet, Datestamp.validate] at h
    split at h
    · cases h
    · rw [← Except.error.inj h]
      trivial

theorem formats_unfit {f : Formats} {host chosen : Option String} {anySchema : Bool} {e : Error}
    (h : f.validate host chosen anySchema = .error e) : Unfit e := by
  have hfail (message : String)
      (h : (.error (.settings message f.supported) : Except Error (Option Schema)) = .error e) :
      Unfit e := by
    rw [← Except.error.inj h]
    trivial
  unfold Formats.validate at h
  dsimp only at h
  split at h
  · exact hfail _ h
  · split at h
    · exact hfail _ h
    · split at h
      · exact hfail _ h
      · split at h
        · exact hfail _ h
        · split at h
          · cases h
          · split at h
            · cases h
            · exact hfail _ h

theorem validate_unfit {h : Harvester} {e : Error} (he : h.validate = .error e) : Unfit e := by
  unfold Harvester.validate Settings.validateDates at he
  rcases hsince : Settings.validateIfSet h.settings.since with e' | u
  · simp only [hsince, bind, Except.bind] at he
    exact Except.error.inj he ▸ validateIfSet_unfit hsince
  · rcases hupTo : Settings.validateIfSet h.settings.upTo with e' | u'
    · simp only [hsince, hupTo, bind, Except.bind] at he
      exact Except.error.inj he ▸ validateIfSet_unfit hupTo
    · simp only [hsince, hupTo, bind, Except.bind] at he
      exact formats_unfit he

theorem crosswalkToUse_unfit {h : Harvester} {e : Error} (he : h.crosswalkToUse = .error e) :
    Unfit e := by
  unfold Harvester.crosswalkToUse Harvester.crosswalk at he
  cases hbound : h.bound with
  | some w => simp [hbound] at he
  | none =>
    rcases hvalid : h.validate with e' | schema
    · simp only [hbound, hvalid, bind, Except.bind] at he
      exact Except.error.inj he ▸ validate_unfit hvalid
    · simp only [hbound, hvalid, bind, Except.bind] at he
      split at he
      · cases he
      · cases schema with
        | none =>
          rw [← Except.error.inj he]
          trivial
        | some schema => cases he

theorem query_unfit {c : Settings} {e : Error} (he : ListQuery.ofSettings c = .error e) :
    Unfit e := by
  unfold ListQuery.ofSettings at he
  split at he
  · rw [← Except.error.inj he]
    trivial
  · rw [← Except.error.inj he]
    trivial
  · cases he

/-! The causes -/

/-- The settings do not fit, and nothing was asked for or given. -/
def Refused (seen : List Stage) (e : Error) : Prop :=
  Unfit e ∧ requests (calls seen) = [] ∧ deliveries seen = []

/-- The list gives no more records. The error names the last datestamp handed out, and the sink took
the documents of all records. -/
def ListFailed (h : Harvester) (seen : List Stage) (e : Error) : Prop :=
  (∃ url reason, e = .extraction url (Pagination.anchor (yielded seen)) reason) ∧
    ∃ w, h.crosswalkToUse = .ok w ∧
      deliveries seen = ((yielded seen).filterMap (document? w)).map fun d => ⟨d, .ok (), false⟩

/-- The sink failed with the error at the last stage, and at no stage before. -/
def SinkFailed (seen : List Stage) (e : Error) : Prop :=
  ∃ before last d raised, seen = before ++ [last] ∧ last.delivery = some ⟨d, .error e, raised⟩ ∧
    ∀ delivery ∈ deliveries before, delivery.result = .ok ()

/-- An error that a record or a page has when it cannot be read. -/
def Unreadable : Error → Prop
  | .missingElement _ _ => True
  | .unknownSchema _ _ => True
  | .malformedXml => True
  | _ => False

theorem Unfit.readable {e : Error} (h : Unfit e) : ¬Unreadable e := by
  cases e with
  | settings message supported => exact id
  | invalidDate text => exact id
  | _ => exact h.elim

theorem not_refused_listFailed {h : Harvester} {seen : List Stage} {e : Error} :
    ¬(Refused seen e ∧ ListFailed h seen e) := by
  rintro ⟨⟨hunfit, _⟩, ⟨url, reason, rfl⟩, _⟩
  exact hunfit

theorem mem_deliveries_of_sinkFailed {seen : List Stage} {e : Error} (h : SinkFailed seen e) :
    ∃ delivery ∈ deliveries seen, delivery.result = .error e := by
  obtain ⟨before, last, d, raised, rfl, hlast, _⟩ := h
  refine ⟨⟨d, .error e, raised⟩, ?_, rfl⟩
  rw [deliveries_snoc, hlast]
  exact List.mem_append_right _ (List.mem_singleton_self _)

theorem not_refused_sinkFailed {seen : List Stage} {e : Error} :
    ¬(Refused seen e ∧ SinkFailed seen e) := by
  rintro ⟨⟨_, _, hnone⟩, hsink⟩
  obtain ⟨delivery, hmem, _⟩ := mem_deliveries_of_sinkFailed hsink
  rw [hnone] at hmem
  cases hmem

theorem not_listFailed_sinkFailed {h : Harvester} {seen : List Stage} {e : Error} :
    ¬(ListFailed h seen e ∧ SinkFailed seen e) := by
  rintro ⟨⟨_, w, _, hgiven⟩, hsink⟩
  obtain ⟨delivery, hmem, herror⟩ := mem_deliveries_of_sinkFailed hsink
  rw [hgiven, List.mem_map] at hmem
  obtain ⟨d, _, rfl⟩ := hmem
  cases herror

/-- Deliveries that were all taken with the flag down are known by their documents. -/
theorem deliveries_eq_map {seen : List Stage}
    (htaken : ∀ d ∈ deliveries seen, d.result = .ok ())
    (hdown : ∀ d ∈ deliveries seen, d.raised = false) :
    deliveries seen = (documents seen).map fun d => ⟨d, .ok (), false⟩ := by
  have hsame : ∀ d ∈ deliveries seen, (⟨d.document, .ok (), false⟩ : Delivery) = d := by
    intro d hd
    rw [← htaken d hd, ← hdown d hd]
  calc
    deliveries seen = (deliveries seen).map id := (List.map_id _).symm
    _ = (deliveries seen).map fun d => ⟨d.document, .ok (), false⟩ :=
      List.map_congr_left fun d hd => (hsame d hd).symm
    _ = (documents seen).map fun d => ⟨d, .ok (), false⟩ := by
      rw [documents, List.map_map]
      rfl

/-- A run that ended with an error had the list fail or the sink. -/
theorem error_of_standing {source : Source σ} {w : Crosswalk} {sink : Sink τ} {s : Session σ}
    {state : τ} {seen : List Stage} {h : Harvester} {r : Run σ τ} {e : Error}
    (hw : h.crosswalkToUse = .ok w)
    (hstanding : Standing source w sink s state seen (.ended (.error e) r)) :
    ListFailed h seen e ∨ SinkFailed seen e := by
  cases hstanding with
  | failed _ _ htrail htally hdown herror =>
    left
    have hcalm : ¬Raised seen := by
      rw [← htally.flag, hdown]
      exact Bool.false_ne_true
    obtain ⟨url, reason, rfl⟩ := herror
    refine ⟨⟨url, reason, ?_⟩, w, hw, ?_⟩
    · rw [yielded, ← htrail.last]
    · rw [← htally.handed]
      refine deliveries_eq_map htally.taken ?_
      intro d hd
      by_contra hup
      exact hcalm (Or.inr ⟨d, hd, by simpa using hup⟩)
  | refused _ _ before last d raised hseen hlast htaken _ =>
    exact Or.inr ⟨before, last, d, raised, hseen, hlast, htaken⟩

theorem cause_of_error {source : Source σ} {sink : Sink τ} {limit : ℕ} {h h' : Harvester}
    {s s' : Session σ} {state state' : τ} {e : Error}
    (herror : h.harvestEach source sink limit s state = some (.error e, h', s', state')) :
    let seen := course source sink limit h s state
    Refused seen e ∨ ListFailed h seen e ∨ SinkFailed seen e := by
  intro seen
  rcases harvestEach_cases source sink limit h s state with
    ⟨e', hcause, hresult, hcourse⟩ | ⟨w, query, hw, hquery⟩
  · rw [hresult] at herror
    injection herror with herror
    injection herror with herror _
    cases Except.error.inj herror
    refine Or.inl ⟨?_, ?_, ?_⟩
    · exact hcause.elim crosswalkToUse_unfit query_unfit
    · simp [seen, hcourse, calls, requests]
    · simp [seen, hcourse, deliveries]
  · have hstanding := standing_course source w sink query { s with aborted := false } state limit rfl
    rw [harvestEach_eq source sink limit s state hw hquery] at herror
    rw [← course_eq source sink limit s state hw hquery] at hstanding
    generalize advance source w sink limit _ = p at herror hstanding
    cases p with
    | going r => cases herror
    | ended result r =>
      simp only [outcome, Option.map_some, Option.some.injEq, Prod.mk.injEq] at herror
      obtain ⟨rfl, _⟩ := herror
      exact Or.inr (error_of_standing hw hstanding)

/-! The flag -/

/-- The flag went up during a request, or when the sink took a document. -/
def Stopped (seen : List Stage) : Prop :=
  (∃ f ∈ requests (calls seen), f.upAfter = true) ∨
    ∃ d ∈ deliveries seen, d.raised = true ∧ d.result = .ok ()

/-- With the flag up a run is over at its next step, which requests nothing and gives nothing to the
sink. -/
theorem step_stopped (source : Source σ) (w : Crosswalk) (sink : Sink τ) {r : Run σ τ}
    (hopen : r.cursor.finished = false) (hup : r.session.aborted = true) :
    let r' := { r with cursor := r.cursor.stop }
    (stage source w sink r).call.fetches = [] ∧ (stage source w sink r).delivery = none ∧
      r.step source w sink = .ended (.ok r'.finalReport) r' := by
  intro r'
  have hcall := next_aborted source r.cursor r.session hopen hup
  have hnext : r.cursor.next source r.session = (none, r.cursor.stop, r.session) :=
    (Next.aborted hopen hup).eq
  refine ⟨?_, ?_, ?_⟩
  · rw [stage, hcall]
  · rw [stage, hcall]
    rfl
  · rw [Run.step, hnext]

/-- A run that was stopped is over, or will be at the next step. -/
theorem stopped_of_standing {source : Source σ} {w : Crosswalk} {sink : Sink τ} {s : Session σ}
    {state : τ} {seen : List Stage} {p : Run.Progress σ τ}
    (hstanding : Standing source w sink s state seen p) (hstopped : Stopped seen) (m : ℕ) :
    ∃ r, advance source w sink (m + 1) p = .ended (.ok r.finalReport) r ∧
      r.session.aborted = true ∧
      requests (calls (stages source w sink (m + 1) p)) = [] ∧
      deliveries (stages source w sink (m + 1) p) = [] := by
  have hraised : Raised seen := hstopped.imp id fun ⟨d, hd, hup, _⟩ => ⟨d, hd, hup⟩
  cases hstanding with
  | going r htrail htally hopen =>
    have hup := htally.flag.mpr hraised
    obtain ⟨hfetches, hdelivery, hstep⟩ := step_stopped source w sink hopen hup
    refine ⟨{ r with cursor := r.cursor.stop }, ?_, hup, ?_, ?_⟩
    · rw [advance, hstep, advance_ended]
    · rw [stages, hstep, stages_ended]
      simp [calls, requests, hfetches]
    · rw [stages, hstep, stages_ended]
      simp [deliveries, hdelivery]
  | finished r htrail htally hcomplete =>
    refine ⟨r, ?_, htally.flag.mpr hraised, ?_, ?_⟩
    · rw [advance_ended]
    · rw [stages_ended]
      rfl
    · rw [stages_ended]
      rfl
  | failed r e htrail htally hdown herror =>
    rw [htally.flag.mpr hraised] at hdown
    cases hdown
  | refused r e before last d raised hseen hlast htaken hcalm =>
    -- The flag was down when the failing sink was called, and this call itself does not count.
    exfalso
    subst hseen
    rcases hstopped with ⟨f, hf, hup⟩ | ⟨delivery, hd, hup, hok⟩
    · rw [calls_snoc, requests_append, List.mem_append] at hf
      rcases hf with hold | hnew
      · exact hcalm.1 (Or.inl ⟨f, hold, hup⟩)
      · exact hcalm.2 ⟨f, by simpa [requests] using hnew, hup⟩
    · rw [deliveries_snoc, List.mem_append, hlast] at hd
      rcases hd with hold | hnew
      · exact hcalm.1 (Or.inr ⟨delivery, hold, hup⟩)
      · rw [List.mem_singleton.mp hnew] at hok
        cases hok

theorem stopped_harvest {source : Source σ} {sink : Sink τ} {limit : ℕ} {h : Harvester}
    {s : Session σ} {state : τ} (hstopped : Stopped (course source sink limit h s state)) (m : ℕ) :
    let later := course source sink (limit + m + 1) h s state
    (∃ report h' s' state',
      h.harvestEach source sink (limit + m + 1) s state = some (.ok report, h', s', state') ∧
      report.aborted = true) ∧
    requests (calls later) = requests (calls (course source sink limit h s state)) ∧
    deliveries later = deliveries (course source sink limit h s state) := by
  intro later
  rcases harvestEach_cases source sink limit h s state with
    ⟨e, _, _, hcourse⟩ | ⟨w, query, hw, hquery⟩
  · rw [hcourse] at hstopped
    rcases hstopped with ⟨f, hf, _⟩ | ⟨d, hd, _⟩
    · cases hf
    · cases hd
  · have hcourse := course_eq source sink limit s state hw hquery
    have hstanding :=
      standing_course source w sink query { s with aborted := false } state limit rfl
    rw [hcourse] at hstopped
    obtain ⟨r, hend, hup, hrequests, hdeliveries⟩ := stopped_of_standing hstanding hstopped m
    have hlater : later = course source sink limit h s state ++
        stages source w sink (m + 1) (advance source w sink limit
          (Run.start source query { s with aborted := false } state)) := by
      rw [hcourse, show later = _ from course_eq source sink (limit + m + 1) s state hw hquery,
        Nat.add_assoc, stages_add, List.cons_append]
    refine ⟨?_, ?_, ?_⟩
    · rw [harvestEach_eq source sink _ s state hw hquery, Nat.add_assoc, advance_add, hend]
      exact ⟨_, _, _, _, rfl, hup⟩
    · rw [hlater, calls_append, requests_append, hrequests, List.append_nil]
    · rw [hlater, deliveries_append, hdeliveries, List.append_nil]

def refusing : Sink Unit := fun _ _ => { result := .error .malformedXml, state := () }

def raising : Sink Unit := fun _ _ => { result := .ok (), state := (), raised := true }

theorem keeper_refused {answers : String → Except Error String}
    (hpage : Page.ofAnswer (answers keeperQuery.url) = (gonePage, .noRecords)) :
    keeper.harvestEach (.fixed answers) refusing 4 ⟨(), false⟩ () =
      some (.error .malformedXml, { keeper with bound := some keeperCrosswalk }, ⟨(), false⟩,
        ()) := by
  rw [harvestEach_eq _ _ _ _ _ keeper_crosswalk keeper_query, start_fixed hpage rfl]
  rfl

theorem keeper_raised {answers : String → Except Error String}
    (hpage : Page.ofAnswer (answers keeperQuery.url) = (gonePage, .noRecords)) :
    deliveries (course (.fixed answers) raising 1 keeper ⟨(), false⟩ ()) =
      [⟨.tombstone "a" "Unknown" (some "1"), .ok (), true⟩] := by
  rw [course_eq _ _ _ _ _ keeper_crosswalk keeper_query, start_fixed hpage rfl]
  rfl

end Harvest.Ending
