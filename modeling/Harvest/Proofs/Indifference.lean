import Harvest.Proofs.Course

/-!
Sources that answer alike make no difference to what is built on them. A cursor has the same life on
both, with the same requests at every call. A harvester comes to the same formats, and each of its
runs to the same report, stage by stage, with the same documents for its sink.
-/
namespace Harvest.Indifference

open Fetching Observation Lifetime Course

variable {σ τ ω : Type} {R : σ → τ → Prop} {source : Source σ} {other : Source τ}

/-! The life of a cursor -/

/-- Two watches that have seen the same. -/
structure Agree (R : σ → τ → Prop) (v : Watch σ) (w : Watch τ) : Prop where
  state : R v.state w.state
  up : v.up = w.up
  fetches : v.fetches = w.fetches

theorem watched_both_alike (h : Alike R source other) :
    Alike (Agree R) (watched source) (watched other) := by
  intro url v w hvw
  obtain ⟨hanswer, hraised, hstate⟩ := h url v.state w.state hvw.state
  refine ⟨hanswer, hraised, hstate, ?_, ?_⟩
  · simp only [watched, hvw.up, hraised]
  · simp only [watched, hvw.fetches, hvw.up, hanswer, hraised]

theorem watch_beside {s : Session σ} {t : Session τ} (hst : Beside R s t) :
    Beside (Agree R) (watch s) (watch t) :=
  ⟨⟨hst.1, hst.2, rfl⟩, hst.2⟩

/-- Two lives at the same point. -/
structure Abreast (R : σ → τ → Prop) (l : Life σ) (m : Life τ) : Prop where
  cursor : l.cursor = m.cursor
  session : Beside R l.session m.session

theorem call_alike (h : Alike R source other) (k : Call) {l : Life σ} {m : Life τ}
    (hlm : Abreast R l m) :
    (call source l k).1 = (call other m k).1 ∧
      Abreast R (call source l k).2 (call other m k).2 := by
  obtain ⟨c, s⟩ := l
  obtain ⟨c', t⟩ := m
  obtain ⟨hcursor, hst⟩ := hlm
  dsimp only at hcursor hst
  subst hcursor
  have hwatch := watched_both_alike h
  have hbeside := watch_beside hst
  cases k with
  | start =>
    obtain ⟨hresult, hcursor, hsession⟩ := start_alike h c hst
    obtain ⟨_, _, hseen⟩ := start_alike hwatch c hbeside
    refine ⟨?_, hcursor, hsession⟩
    simp only [call, hresult, hseen.1.fetches]
  | next =>
    obtain ⟨hanswer, hcursor, hsession⟩ := next_alike h c hst
    obtain ⟨_, _, hseen⟩ := next_alike hwatch c hbeside
    refine ⟨?_, hcursor, hsession⟩
    simp only [call, hanswer, hseen.1.fetches]
  | raise => exact ⟨rfl, rfl, hst.1, rfl⟩
  | lower => exact ⟨rfl, rfl, hst.1, rfl⟩

theorem run_alike (h : Alike R source other) (calls : List Call) {l : Life σ} {m : Life τ}
    (hlm : Abreast R l m) :
    (run source calls l).1 = (run other calls m).1 ∧
      Abreast R (run source calls l).2 (run other calls m).2 := by
  induction calls generalizing l m with
  | nil => exact ⟨rfl, hlm⟩
  | cons k calls ih =>
    obtain ⟨hevent, habreast⟩ := call_alike h k hlm
    obtain ⟨hevents, hend⟩ := ih habreast
    refine ⟨?_, hend⟩
    simp only [run, hevent, hevents]

/-! The run of a harvester -/

/-- Two runs at the same point. -/
structure Level (R : σ → τ → Prop) (r : Run σ ω) (r' : Run τ ω) : Prop where
  cursor : r.cursor = r'.cursor
  session : Beside R r.session r'.session
  sink : r.sink = r'.sink
  report : r.report = r'.report

/-- Both runs go on, or both have ended with the same result. -/
inductive Paired (R : σ → τ → Prop) : Run.Progress σ ω → Run.Progress τ ω → Prop
  | going {r : Run σ ω} {r' : Run τ ω} (hlevel : Level R r r') : Paired R (.going r) (.going r')
  | ended (result : Except Error Report) {r : Run σ ω} {r' : Run τ ω} (hlevel : Level R r r') :
      Paired R (.ended result r) (.ended result r')

theorem Level.deliver {r : Run σ ω} {r' : Run τ ω} (h : Level R r r') (sink : Sink ω)
    (d : Document) :
    (r.deliver sink d).1 = (r'.deliver sink d).1 ∧
      Level R (r.deliver sink d).2 (r'.deliver sink d).2 := by
  refine ⟨?_, h.cursor, ⟨h.session.1, ?_⟩, ?_, ?_⟩
  · simp only [Run.deliver, h.sink]
  · simp only [Run.deliver, h.sink, h.session.2]
  · simp only [Run.deliver, h.sink]
  · simp only [Run.deliver, h.report]

theorem Level.passed {r : Run σ ω} {r' : Run τ ω} (h : Level R r r') (record : Record) :
    Level R (r.passed record) (r'.passed record) where
  cursor := h.cursor
  session := h.session
  sink := h.sink
  report := by simp only [Run.passed, h.report]

theorem Level.counted {r : Run σ ω} {r' : Run τ ω} (h : Level R r r') (record : Record) :
    Level R (counted record r) (counted record r') where
  cursor := h.cursor
  session := h.session
  sink := h.sink
  report := by simp only [Course.counted, h.report]

theorem Level.omitted {r : Run σ ω} {r' : Run τ ω} (h : Level R r r') :
    Level R (omitted r) (omitted r') where
  cursor := h.cursor
  session := h.session
  sink := h.sink
  report := by simp only [Course.omitted, h.report]

theorem takeRecord_paired (w : Crosswalk) (sink : Sink ω) (record : Record) {r : Run σ ω}
    {r' : Run τ ω} (h : Level R r r') :
    Paired R (Run.takeRecord w sink record r) (Run.takeRecord w sink record r') := by
  rcases hrecord : w.transform record with e | _ | d
  · simp only [Run.takeRecord, hrecord]
    exact .going ((h.counted record).omitted.passed record)
  · simp only [Run.takeRecord, hrecord]
    exact .going ((h.counted record).passed record)
  · obtain ⟨_, hlevel⟩ := (h.counted record).deliver sink d
    rw [takeRecord_document hrecord, takeRecord_document hrecord, ← h.sink]
    rcases (sink d r.sink).result with e | u
    · exact .ended (.error e) hlevel
    · exact .going (hlevel.passed record)

theorem step_paired (h : Alike R source other) (w : Crosswalk) (sink : Sink ω) {r : Run σ ω}
    {r' : Run τ ω} (hlevel : Level R r r') :
    Paired R (r.step source w sink) (r'.step other w sink) := by
  obtain ⟨c, s, state, report⟩ := r
  obtain ⟨c', t, state', report'⟩ := r'
  obtain ⟨hcursor, hst, hsink, hreport⟩ := hlevel
  dsimp only at hcursor hst hsink hreport
  subst hcursor hsink hreport
  have hnext := next_alike h c hst
  rcases hs : c.next source s with ⟨answer, c₁, s₁⟩
  rcases ht : c.next other t with ⟨answer', c₂, t₁⟩
  simp only [hs, ht] at hnext
  obtain ⟨rfl, rfl, hbeside⟩ := hnext
  rcases answer with _ | e | record
  · simp only [Run.step, hs, ht, Run.finalReport, hbeside.2]
    exact .ended _ ⟨rfl, hbeside, rfl, rfl⟩
  · simp only [Run.step, hs, ht]
    exact .ended (.error e) ⟨rfl, hbeside, rfl, rfl⟩
  · simp only [Run.step, hs, ht]
    exact takeRecord_paired w sink record ⟨rfl, hbeside, rfl, rfl⟩

theorem stage_congr (h : Alike R source other) (w : Crosswalk) (sink : Sink ω) {r : Run σ ω}
    {r' : Run τ ω} (hlevel : Level R r r') : stage source w sink r = stage other w sink r' := by
  obtain ⟨hevent, habreast⟩ := call_alike h .next (l := ⟨r.cursor, r.session⟩)
    (m := ⟨r'.cursor, r'.session⟩) ⟨hlevel.cursor, hlevel.session⟩
  simp only [stage, hevent, habreast.cursor, hlevel.sink]

/-- After any number of steps the runs are at the same point and have gone through the same
stages. -/
theorem advance_paired (h : Alike R source other) (w : Crosswalk) (sink : Sink ω) (limit : ℕ)
    {p : Run.Progress σ ω} {p' : Run.Progress τ ω} (hpaired : Paired R p p') :
    Paired R (advance source w sink limit p) (advance other w sink limit p') ∧
      stages source w sink limit p = stages other w sink limit p' := by
  induction limit generalizing p p' with
  | zero => exact ⟨hpaired, rfl⟩
  | succ limit ih =>
    cases hpaired with
    | going hlevel =>
      obtain ⟨hend, hstages⟩ := ih (step_paired h w sink hlevel)
      refine ⟨hend, ?_⟩
      simp only [stages, stage_congr h w sink hlevel, hstages]
    | ended result hlevel => exact ⟨.ended result hlevel, rfl⟩

theorem start_paired (h : Alike R source other) (query : ListQuery) {s : Session σ}
    {t : Session τ} (hst : Beside R s t) (state : ω) :
    Paired R (Run.start source query s state) (Run.start other query t state) := by
  have hstart := start_alike h (.ofQuery query) hst
  rcases hs : (Cursor.ofQuery query).start source s with ⟨result, c, s₁⟩
  rcases ht : (Cursor.ofQuery query).start other t with ⟨result', c', t₁⟩
  simp only [hs, ht] at hstart
  obtain ⟨rfl, rfl, hbeside⟩ := hstart
  rcases result with e | u
  · simp only [Run.start, hs, ht]
    exact .ended (.error e) ⟨rfl, hbeside, rfl, rfl⟩
  · simp only [Run.start, hs, ht]
    exact .going ⟨rfl, hbeside, rfl, rfl⟩

theorem opening_congr (h : Alike R source other) (query : ListQuery) {s : Session σ}
    {t : Session τ} (hst : Beside R s t) : opening source query s = opening other query t := by
  obtain ⟨hevent, habreast⟩ := call_alike h .start (l := ⟨.ofQuery query, s⟩)
    (m := ⟨.ofQuery query, t⟩) ⟨rfl, hst⟩
  simp only [opening, hevent, habreast.cursor]

/-! Harvesters -/

/-- Neither harvest has ended, or both have ended in the same way. -/
inductive Even (R : σ → τ → Prop) : Option (Except Error Report × Harvester × Session σ × ω) →
    Option (Except Error Report × Harvester × Session τ × ω) → Prop
  | unended : Even R none none
  | ended (result : Except Error Report) (h : Harvester) {s : Session σ} {t : Session τ}
      (hst : Beside R s t) (state : ω) :
      Even R (some (result, h, s, state)) (some (result, h, t, state))

theorem harvestEach_even (h : Alike R source other) (sink : Sink ω) (limit : ℕ)
    (harvester : Harvester) {s : Session σ} {t : Session τ} (hst : Beside R s t) (state : ω) :
    Even R (harvester.harvestEach source sink limit s state)
        (harvester.harvestEach other sink limit t state) ∧
      course source sink limit harvester s state = course other sink limit harvester t state := by
  have hlow : Beside R { s with aborted := false } { t with aborted := false } := ⟨hst.1, rfl⟩
  rcases hw : harvester.crosswalkToUse with e | w
  · simp only [Harvester.harvestEach, course, hw]
    exact ⟨.ended (.error e) _ hlow state, trivial⟩
  rcases hquery : ListQuery.ofSettings harvester.settings with e | query
  · simp only [Harvester.harvestEach, course, hw, hquery]
    exact ⟨.ended (.error e) _ hlow state, trivial⟩
  have hstart := start_paired h query hlow state
  obtain ⟨hend, hstages⟩ := advance_paired h w sink limit hstart
  rw [harvestEach_eq _ _ _ _ _ hw hquery, harvestEach_eq _ _ _ _ _ hw hquery,
    course_eq _ _ _ _ _ hw hquery, course_eq _ _ _ _ _ hw hquery, opening_congr h query hlow,
    hstages]
  refine ⟨?_, rfl⟩
  generalize advance source w sink limit _ = p at hend ⊢
  generalize advance other w sink limit _ = p' at hend ⊢
  cases hend with
  | going hlevel => exact .unended
  | @ended result r r' hlevel =>
    simp only [outcome, Option.map_some, hlevel.sink]
    exact .ended result _ hlevel.session r'.sink

theorem resolve_alike (h : Alike R source other) (host : Option String) {s : Session σ}
    {t : Session τ} (hst : Beside R s t) :
    (Harvester.resolve source host s).1 = (Harvester.resolve other host t).1 ∧
      Beside R (Harvester.resolve source host s).2 (Harvester.resolve other host t).2 := by
  cases host with
  | none => exact ⟨rfl, hst⟩
  | some host =>
    obtain ⟨hformats, hst₁⟩ := request_alike h (Request.metadataFormats host) hst
    obtain ⟨hname, hst₂⟩ := request_alike h (Request.identify host) hst₁
    refine ⟨?_, hst₂⟩
    simp only [Harvester.resolve, hformats, hname]

theorem create_alike (h : Alike R source other) (settings : Settings) {state : σ} {state' : τ}
    (hstate : R state state') :
    (Harvester.create source settings state).1 = (Harvester.create other settings state').1 ∧
      Beside R (Harvester.create source settings state).2
        (Harvester.create other settings state').2 := by
  obtain ⟨hresolved, hbeside⟩ := resolve_alike h settings.normalize.chosenHost?
    (s := ⟨state, false⟩) (t := ⟨state', false⟩) ⟨hstate, rfl⟩
  refine ⟨?_, hbeside.1, rfl⟩
  simp only [Harvester.create, hresolved]

theorem setSettings_alike (h : Alike R source other) (settings : Settings)
    (harvester : Harvester) {s : Session σ} {t : Session τ} (hst : Beside R s t) :
    (harvester.setSettings source settings s).1 = (harvester.setSettings other settings t).1 ∧
      Beside R (harvester.setSettings source settings s).2
        (harvester.setSettings other settings t).2 := by
  by_cases hhost : harvester.settings.chosenHost? = settings.normalize.chosenHost?
  · simp only [Harvester.setSettings, hhost, BEq.rfl, if_true]
    exact ⟨trivial, hst⟩
  · obtain ⟨hresolved, hbeside⟩ := resolve_alike h settings.normalize.chosenHost? hst
    have hother : (harvester.settings.chosenHost? == settings.normalize.chosenHost?) = false := by
      simpa using hhost
    simp only [Harvester.setSettings, hother, Bool.false_eq_true, if_false, hresolved]
    exact ⟨trivial, hbeside⟩

/-- What a harvester is told to do. -/
inductive Order (ω : Type) where
  | set (settings : Settings)
  | harvest (sink : Sink ω) (limit : ℕ)

/-- What comes of it: the harvester with its other settings, or a harvest stage by stage, with its
result, the harvester and the sink after it if it has ended. -/
inductive Service (ω : Type) where
  | set (h : Harvester)
  | harvested (seen : List Stage) (result : Except Error Report) (h : Harvester) (state : ω)
  | unended (seen : List Stage)

/-- Orders one after the other. A harvest that does not end is the last. -/
def serve (source : Source σ) : List (Order ω) → Harvester → Session σ → ω → List (Service ω)
  | [], _, _, _ => []
  | .set settings :: orders, h, s, state =>
    let (h, s) := h.setSettings source settings s
    .set h :: serve source orders h s state
  | .harvest sink limit :: orders, h, s, state =>
    let seen := course source sink limit h s state
    match h.harvestEach source sink limit s state with
    | none => [.unended seen]
    | some (result, h, s, state) =>
      .harvested seen result h state :: serve source orders h s state

theorem serve_alike (h : Alike R source other) (orders : List (Order ω)) (harvester : Harvester)
    {s : Session σ} {t : Session τ} (hst : Beside R s t) (state : ω) :
    serve source orders harvester s state = serve other orders harvester t state := by
  induction orders generalizing harvester s t state with
  | nil => rfl
  | cons order orders ih =>
    cases order with
    | set settings =>
      obtain ⟨hharvester, hbeside⟩ := setSettings_alike h settings harvester hst
      simp only [serve, hharvester, ih _ hbeside]
    | harvest sink limit =>
      obtain ⟨heven, hcourse⟩ := harvestEach_even h sink limit harvester hst state
      simp only [serve, hcourse]
      generalize harvester.harvestEach source sink limit s state = a at heven ⊢
      generalize harvester.harvestEach other sink limit t state = b at heven ⊢
      cases heven with
      | unended => rfl
      | ended result h' hbeside state' => simp only [ih h' hbeside state']

/-- Nothing built on the one source in its state can be told from the same on the other: neither a
cursor, whenever it is called and its flag goes up or down, nor a harvester with all its orders. -/
structure Same (source : Source σ) (state : σ) (other : Source τ) (state' : τ) : Prop where
  lives : ∀ (q : ListQuery) (up : Bool) (calls : List Call),
    let (events, l) := run source calls (begun q state up)
    let (events', l') := run other calls (begun q state' up)
    events = events' ∧ l.cursor = l'.cursor ∧ l.session.aborted = l'.session.aborted
  harvests : ∀ {ω : Type} (settings : Settings) (orders : List (Order ω)) (kept : ω),
    let (h, s) := Harvester.create source settings state
    let (h', s') := Harvester.create other settings state'
    h = h' ∧ serve source orders h s kept = serve other orders h' s' kept

theorem same_of_alike (h : Alike R source other) {state : σ} {state' : τ}
    (hstate : R state state') : Same source state other state' where
  lives q up calls := by
    obtain ⟨hevents, habreast⟩ := run_alike h calls (l := begun q state up)
      (m := begun q state' up) ⟨rfl, hstate, rfl⟩
    exact ⟨hevents, habreast.cursor, habreast.session.2⟩
  harvests settings orders kept := by
    obtain ⟨hharvester, hbeside⟩ := create_alike h settings hstate
    dsimp only
    rw [hharvester]
    exact ⟨rfl, serve_alike h orders _ hbeside kept⟩

end Harvest.Indifference
