import Harvest.Harvester
import Harvest.Proofs.Lifetime

/-!
The course of a run as a bystander sees it: stage by stage, with the call on the cursor, the requests
made meanwhile, and the document handed to the sink. All that one step of a run can do is listed
case by case. What holds of a whole course is derived from its stages by one induction over the
steps, which says nothing about whether the run comes to an end.
-/
namespace Harvest.Course

open Fetching Observation Lifetime

variable {σ τ : Type}

/-- A document given to a sink, and what the sink did with it. -/
structure Delivery where
  document : Document
  result : Except Error Unit
  raised : Bool

/-- A call on the cursor, the cursor after it, and the delivery it led to. -/
structure Stage where
  call : Event
  cursor : Cursor
  delivery : Option Delivery

def calls (seen : List Stage) : List Event := seen.map Stage.call

def requests (events : List Event) : List Fetch := events.flatMap Event.fetches

/-- The records that the cursor handed out, in order. -/
def yielded (seen : List Stage) : List Record := given (calls seen)

/-- The pages that the cursor took in: those that came with the flag down and with records. -/
def accepted (seen : List Stage) : List Page := pages (calls seen)

def urls (seen : List Stage) : List String := (requests (calls seen)).map Fetch.url

def deliveries (seen : List Stage) : List Delivery := seen.filterMap Stage.delivery

def documents (seen : List Stage) : List Document := (deliveries seen).map Delivery.document

/-- The document that a stage hands to the sink. -/
def due (last : Stage) : Option Document := last.delivery.map Delivery.document

@[simp] theorem calls_append (seen more : List Stage) :
    calls (seen ++ more) = calls seen ++ calls more := by
  simp [calls]

@[simp] theorem requests_append (events more : List Event) :
    requests (events ++ more) = requests events ++ requests more := by
  simp [requests]

@[simp] theorem given_append (events more : List Event) :
    given (events ++ more) = given events ++ given more := by
  simp [given]

@[simp] theorem pages_append (events more : List Event) :
    pages (events ++ more) = pages events ++ pages more := by
  simp [pages]

@[simp] theorem deliveries_append (seen more : List Stage) :
    deliveries (seen ++ more) = deliveries seen ++ deliveries more := by
  simp [deliveries]

theorem urls_append (seen more : List Stage) : urls (seen ++ more) = urls seen ++ urls more := by
  simp [urls]

theorem documents_append (seen more : List Stage) :
    documents (seen ++ more) = documents seen ++ documents more := by
  simp [documents]

theorem documents_cons (last : Stage) (seen : List Stage) :
    documents (last :: seen) = (due last).toList ++ documents seen := by
  simp only [documents, deliveries, due]
  cases h : last.delivery with
  | none => simp [h]
  | some delivery => simp [h]

/-- The state of a source after some requests. -/
def reach (source : Source σ) (state : σ) (urls : List String) : σ :=
  urls.foldl (fun state url => (source url state).state) state

theorem reach_append (source : Source σ) (state : σ) (urls more : List String) :
    reach source state (urls ++ more) = reach source (reach source state urls) more :=
  List.foldl_append

theorem call_start {source : Source σ} {c c' : Cursor} {s s' : Session σ}
    {result : Except Error Unit} (hstart : c.start source s = (result, c', s')) :
    ∃ fetches, call source ⟨c, s⟩ .start = (⟨.started result, fetches⟩, ⟨c', s'⟩) :=
  ⟨(call source ⟨c, s⟩ .start).1.fetches, by simp only [call, hstart]⟩

theorem call_next {source : Source σ} {c c' : Cursor} {s s' : Session σ}
    {answer : Option (Except Error Record)} (hnext : c.next source s = (answer, c', s')) :
    ∃ fetches, call source ⟨c, s⟩ .next = (⟨.gave answer, fetches⟩, ⟨c', s'⟩) :=
  ⟨(call source ⟨c, s⟩ .next).1.fetches, by simp only [call, hnext]⟩

/-! The stages of a run -/

/-- What becomes of a record on its way to the sink. -/
def handed (w : Crosswalk) (sink : Sink τ) (state : τ) (record : Record) : Option Delivery :=
  match w.transform record with
  | .ok (some d) => some ⟨d, (sink d state).result, (sink d state).raised⟩
  | _ => none

/-- The stage that the next step of a run is. -/
def stage (source : Source σ) (w : Crosswalk) (sink : Sink τ) (r : Run σ τ) : Stage :=
  let (event, l) := call source ⟨r.cursor, r.session⟩ .next
  ⟨event, l.cursor, event.record?.bind (handed w sink r.sink)⟩

/-- The first stage, in which the first page is asked for. -/
def opening (source : Source σ) (query : ListQuery) (s : Session σ) : Stage :=
  let (event, l) := call source ⟨.ofQuery query, s⟩ .start
  ⟨event, l.cursor, none⟩

/-- A run after `limit` more steps, or at its end if that comes before. -/
def advance (source : Source σ) (w : Crosswalk) (sink : Sink τ) :
    ℕ → Run.Progress σ τ → Run.Progress σ τ
  | limit + 1, .going r => advance source w sink limit (r.step source w sink)
  | _, p => p

/-- The stages of these steps. -/
def stages (source : Source σ) (w : Crosswalk) (sink : Sink τ) :
    ℕ → Run.Progress σ τ → List Stage
  | limit + 1, .going r =>
    stage source w sink r :: stages source w sink limit (r.step source w sink)
  | _, _ => []

/-- The course of a harvest within `limit` steps. -/
def course (source : Source σ) (sink : Sink τ) (limit : ℕ) (h : Harvester) (s : Session σ)
    (state : τ) : List Stage :=
  let s := { s with aborted := false }
  match h.crosswalkToUse, ListQuery.ofSettings h.settings with
  | .ok w, .ok query =>
    opening source query s :: stages source w sink limit (Run.start source query s state)
  | _, _ => []

/-- The end of a run, if it has come. -/
def outcome : Run.Progress σ τ → Option (Except Error Report × Run σ τ)
  | .going _ => none
  | .ended result r => some (result, r)

theorem advance_ended (source : Source σ) (w : Crosswalk) (sink : Sink τ) (limit : ℕ)
    (result : Except Error Report) (r : Run σ τ) :
    advance source w sink limit (.ended result r) = .ended result r := by
  cases limit <;> rfl

theorem stages_ended (source : Source σ) (w : Crosswalk) (sink : Sink τ) (limit : ℕ)
    (result : Except Error Report) (r : Run σ τ) :
    stages source w sink limit (.ended result r) = [] := by
  cases limit <;> rfl

theorem drive_eq_outcome (source : Source σ) (w : Crosswalk) (sink : Sink τ) (limit : ℕ)
    (r : Run σ τ) :
    r.drive source w sink limit = outcome (advance source w sink limit (.going r)) := by
  induction limit generalizing r with
  | zero => rfl
  | succ limit ih =>
    rw [Run.drive, advance]
    cases r.step source w sink with
    | going r' => exact ih r'
    | ended result r' => rw [advance_ended, outcome]

theorem all_eq_outcome (source : Source σ) (w : Crosswalk) (sink : Sink τ) (limit : ℕ)
    (query : ListQuery) (s : Session σ) (state : τ) :
    Run.all source w sink limit query s state =
      (outcome (advance source w sink limit (Run.start source query s state))).map
        fun (result, r) => (result, r.session, r.sink) := by
  rw [Run.all]
  cases Run.start source query s state with
  | going r => simp only [drive_eq_outcome]
  | ended result r => simp only [advance_ended, outcome, Option.map_some]

theorem advance_add (source : Source σ) (w : Crosswalk) (sink : Sink τ) (n m : ℕ)
    (p : Run.Progress σ τ) :
    advance source w sink (n + m) p = advance source w sink m (advance source w sink n p) := by
  induction n generalizing p with
  | zero => simp [advance]
  | succ n ih =>
    cases p with
    | going r =>
      rw [Nat.add_right_comm]
      exact ih _
    | ended result r => simp only [advance_ended]

theorem stages_add (source : Source σ) (w : Crosswalk) (sink : Sink τ) (n m : ℕ)
    (p : Run.Progress σ τ) :
    stages source w sink (n + m) p =
      stages source w sink n p ++ stages source w sink m (advance source w sink n p) := by
  induction n generalizing p with
  | zero => simp [advance, stages]
  | succ n ih =>
    cases p with
    | going r =>
      rw [Nat.add_right_comm]
      simp only [stages, advance, ih, List.cons_append]
    | ended result r => simp only [stages_ended, advance_ended, List.append_nil]

/-- What each step of a run keeps holds after any number of them. -/
theorem advance_induction {source : Source σ} {w : Crosswalk} {sink : Sink τ}
    {P : List Stage → Run.Progress σ τ → Prop}
    (hstep : ∀ seen r, P seen (.going r) →
      P (seen ++ [stage source w sink r]) (r.step source w sink))
    (limit : ℕ) (seen : List Stage) (p : Run.Progress σ τ) (h : P seen p) :
    P (seen ++ stages source w sink limit p) (advance source w sink limit p) := by
  induction limit generalizing seen p with
  | zero => simpa [stages, advance] using h
  | succ limit ih =>
    cases p with
    | going r => simpa [stages, advance] using ih _ _ (hstep seen r h)
    | ended result r => simpa [stages, advance] using h

/-- The crosswalk that is bound is the one the settings ask for. -/
def Coherent (h : Harvester) : Prop := ∀ w, h.bound = some w → h.crosswalk = .ok w

theorem Coherent.crosswalkToUse {h : Harvester} (hcoherent : Coherent h) :
    h.crosswalkToUse = h.crosswalk := by
  unfold Harvester.crosswalkToUse
  cases hbound : h.bound with
  | none => rfl
  | some w => exact (hcoherent w hbound).symm

section

variable (source : Source σ) (sink : Sink τ) (limit : ℕ) {h : Harvester} (s : Session σ)
  (state : τ) {w : Crosswalk} {query : ListQuery}

/-- With a crosswalk and a query a harvest is a run. -/
theorem harvestEach_eq (hw : h.crosswalkToUse = .ok w)
    (hquery : ListQuery.ofSettings h.settings = .ok query) :
    h.harvestEach source sink limit s state =
      (outcome (advance source w sink limit
        (Run.start source query { s with aborted := false } state))).map
          fun (result, r) => (result, { h with bound := some w }, r.session, r.sink) := by
  simp only [Harvester.harvestEach, hw, hquery, all_eq_outcome, Option.map_map]
  rfl

theorem course_eq (hw : h.crosswalkToUse = .ok w)
    (hquery : ListQuery.ofSettings h.settings = .ok query) :
    course source sink limit h s state =
      opening source query { s with aborted := false } ::
        stages source w sink limit (Run.start source query { s with aborted := false } state) := by
  simp only [course, hw, hquery]

end

/-- A harvest is refused before anything is asked for, or there are a crosswalk and a query. -/
theorem harvestEach_cases (source : Source σ) (sink : Sink τ) (limit : ℕ) (h : Harvester)
    (s : Session σ) (state : τ) :
    (∃ e,
      (h.crosswalkToUse = .error e ∨ ListQuery.ofSettings h.settings = .error e) ∧
      h.harvestEach source sink limit s state =
        some (.error e, { h with bound := h.crosswalkToUse.toOption },
          { s with aborted := false }, state) ∧
      course source sink limit h s state = []) ∨
    ∃ w query, h.crosswalkToUse = .ok w ∧ ListQuery.ofSettings h.settings = .ok query := by
  cases hw : h.crosswalkToUse with
  | error e =>
    refine Or.inl ⟨e, Or.inl rfl, ?_, ?_⟩
    · simp only [Harvester.harvestEach, hw, Except.toOption]
    · simp only [course, hw]
  | ok w =>
    cases hquery : ListQuery.ofSettings h.settings with
    | error e =>
      refine Or.inl ⟨e, Or.inr rfl, ?_, ?_⟩
      · simp only [Harvester.harvestEach, hw, hquery, Except.toOption]
      · simp only [course, hw, hquery]
    | ok query => exact Or.inr ⟨w, query, rfl, rfl⟩

/-- A fixed source whose first page has records: the run goes on with them. -/
theorem start_fixed {answers : String → Except Error String} {query : ListQuery} {page : Page}
    {shortfall : Shortfall} (hpage : Page.ofAnswer (answers query.url) = (page, shortfall))
    (hrecords : page.records.isEmpty = false) (state : τ) :
    let c := Cursor.accept { Cursor.ofQuery query with nextUrl := none, pages := 1 } page
    Run.start (.fixed answers) query ⟨(), false⟩ state =
      .going ⟨c, ⟨(), false⟩, state, { expectedSize := c.expectedSize, version := c.version }⟩ := by
  intro c
  simp [Run.start, Cursor.start, Cursor.ofQuery, Cursor.fetchPage, Cursor.loadPage,
    Session.request, Source.fixed, hpage, hrecords, c]

/-! One step of a run -/

/-- The run after a call on its cursor. -/
def moved (l : Life σ) (r : Run σ τ) : Run σ τ := { r with cursor := l.cursor, session := l.session }

/-- The run with a record counted, if it is a deleted one. -/
def counted (record : Record) (r : Run σ τ) : Run σ τ :=
  { r with
    report := { r.report with
      deleted := r.report.deleted + if record.deleted then 1 else 0 } }

/-- The run with a record left out. -/
def omitted (r : Run σ τ) : Run σ τ :=
  { r with report := { r.report with skipped := r.report.skipped + 1 } }

/-- The ways a step of a run can go: the list ends or fails, or there is a record. A record is left
out or dropped, or its document goes to the sink, which takes it or fails. -/
inductive Went (source : Source σ) (w : Crosswalk) (sink : Sink τ) (r : Run σ τ) :
    Stage → Run.Progress σ τ → Prop
  | finished (fetches : List Fetch) (l : Life σ)
      (hcall : call source ⟨r.cursor, r.session⟩ .next = (⟨.gave none, fetches⟩, l)) :
      Went source w sink r ⟨⟨.gave none, fetches⟩, l.cursor, none⟩
        (.ended (.ok (moved l r).finalReport) (moved l r))
  | failed (fetches : List Fetch) (l : Life σ) (e : Error)
      (hcall : call source ⟨r.cursor, r.session⟩ .next = (⟨.gave (some (.error e)), fetches⟩, l)) :
      Went source w sink r ⟨⟨.gave (some (.error e)), fetches⟩, l.cursor, none⟩
        (.ended (.error e) (moved l r))
  | omitted (fetches : List Fetch) (l : Life σ) (record : Record) (e : Error)
      (hcall : call source ⟨r.cursor, r.session⟩ .next =
        (⟨.gave (some (.ok record)), fetches⟩, l))
      (hrecord : w.transform record = .error e) :
      Went source w sink r ⟨⟨.gave (some (.ok record)), fetches⟩, l.cursor, none⟩
        (.going ((omitted (counted record (moved l r))).passed record))
  | dropped (fetches : List Fetch) (l : Life σ) (record : Record)
      (hcall : call source ⟨r.cursor, r.session⟩ .next =
        (⟨.gave (some (.ok record)), fetches⟩, l))
      (hrecord : w.transform record = .ok none) :
      Went source w sink r ⟨⟨.gave (some (.ok record)), fetches⟩, l.cursor, none⟩
        (.going ((counted record (moved l r)).passed record))
  | taken (fetches : List Fetch) (l : Life σ) (record : Record) (d : Document)
      (hcall : call source ⟨r.cursor, r.session⟩ .next =
        (⟨.gave (some (.ok record)), fetches⟩, l))
      (hrecord : w.transform record = .ok (some d))
      (hsink : (sink d r.sink).result = .ok ()) :
      Went source w sink r
        ⟨⟨.gave (some (.ok record)), fetches⟩, l.cursor, some ⟨d, .ok (), (sink d r.sink).raised⟩⟩
        (.going (((counted record (moved l r)).deliver sink d).2.passed record))
  | refused (fetches : List Fetch) (l : Life σ) (record : Record) (d : Document) (e : Error)
      (hcall : call source ⟨r.cursor, r.session⟩ .next =
        (⟨.gave (some (.ok record)), fetches⟩, l))
      (hrecord : w.transform record = .ok (some d))
      (hsink : (sink d r.sink).result = .error e) :
      Went source w sink r
        ⟨⟨.gave (some (.ok record)), fetches⟩, l.cursor,
          some ⟨d, .error e, (sink d r.sink).raised⟩⟩
        (.ended (.error e) ((counted record (moved l r)).deliver sink d).2)

/-- The document of a record goes to the sink, and the run goes on if the sink takes it. -/
theorem takeRecord_document {w : Crosswalk} {record : Record} {d : Document}
    (hrecord : w.transform record = .ok (some d)) (sink : Sink τ) (r : Run σ τ) :
    Run.takeRecord w sink record r =
      match (sink d r.sink).result with
      | .ok () => .going (((counted record r).deliver sink d).2.passed record)
      | .error e => .ended (.error e) ((counted record r).deliver sink d).2 := by
  rcases hresult : (sink d r.sink).result with e | u
  · simp only [Run.takeRecord, hrecord, Run.deliver, hresult]
    rfl
  · simp only [Run.takeRecord, hrecord, Run.deliver, hresult]
    rfl

/-- Every step is one of these. -/
theorem went (source : Source σ) (w : Crosswalk) (sink : Sink τ) (r : Run σ τ) :
    Went source w sink r (stage source w sink r) (r.step source w sink) := by
  rcases hnext : r.cursor.next source r.session with ⟨answer, c, s⟩
  obtain ⟨fetches, hcall⟩ := call_next hnext
  rcases answer with _ | e | record
  · simp only [stage, hcall, Run.step, hnext]
    exact .finished fetches ⟨c, s⟩ hcall
  · simp only [stage, hcall, Run.step, hnext]
    exact .failed fetches ⟨c, s⟩ e hcall
  · have hstep : r.step source w sink = Run.takeRecord w sink record (moved ⟨c, s⟩ r) := by
      simp only [Run.step, hnext, moved]
    have hstage : stage source w sink r =
        ⟨⟨.gave (some (.ok record)), fetches⟩, c, handed w sink r.sink record⟩ := by
      simp only [stage, hcall, Event.record?, Option.bind_some]
    rw [hstep, hstage]
    rcases hrecord : w.transform record with e | _ | d
    · simp only [handed, Run.takeRecord, hrecord]
      exact .omitted fetches ⟨c, s⟩ record e hcall hrecord
    · simp only [handed, Run.takeRecord, hrecord]
      exact .dropped fetches ⟨c, s⟩ record hcall hrecord
    · have hsame : (moved ⟨c, s⟩ r).sink = r.sink := rfl
      rw [takeRecord_document hrecord, hsame, handed]
      simp only [hrecord]
      rcases hsink : (sink d r.sink).result with e | u
      · exact .refused fetches ⟨c, s⟩ record d e hcall hrecord hsink
      · exact .taken fetches ⟨c, s⟩ record d hcall hrecord hsink

end Harvest.Course
