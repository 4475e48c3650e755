import Harvest.Proofs.Fetching

/-!
Sources seen from outside. Two sources that answer alike, state by state, cannot be told apart by a
cursor. So a source may keep books on the requests made to it without changing anything: the
addresses in order, or also what the abort flag was when a request began and when it ended.
-/
namespace Harvest.Observation

open Fetching

variable {σ τ : Type}

/-- No request raises the flag. -/
def Quiet (source : Source σ) : Prop := ∀ url state, (source url state).raised = false

/-- In states related by `R` both sources answer the same, and the states stay related. -/
def Alike (R : σ → τ → Prop) (source : Source σ) (other : Source τ) : Prop :=
  ∀ url state state', R state state' →
    (source url state).answer = (other url state').answer ∧
    (source url state).raised = (other url state').raised ∧
    R (source url state).state (other url state').state

/-- Two sessions with the same flag, in related states. -/
def Beside (R : σ → τ → Prop) (s : Session σ) (t : Session τ) : Prop :=
  R s.state t.state ∧ s.aborted = t.aborted

variable {R : σ → τ → Prop} {source : Source σ} {other : Source τ}

theorem request_alike (h : Alike R source other) (url : String) {s : Session σ} {t : Session τ}
    (hst : Beside R s t) :
    (s.request source url).1 = (t.request other url).1 ∧
      Beside R (s.request source url).2 (t.request other url).2 := by
  obtain ⟨hanswer, hraised, hstate⟩ := h url s.state t.state hst.1
  refine ⟨hanswer, hstate, ?_⟩
  simp only [Session.request, hst.2, hraised]

theorem requestTurn_alike (h : Alike R source other) (url : String) (last : Option String)
    {s : Session σ} {t : Session τ} (hst : Beside R s t) :
    (request source url last s).urls = (request other url last t).urls ∧
      (request source url last s).outcome = (request other url last t).outcome ∧
      Beside R (request source url last s).session (request other url last t).session := by
  obtain ⟨hanswer, hbeside⟩ := request_alike h url hst
  refine ⟨rfl, ?_, hbeside⟩
  simp only [request, hanswer, hbeside.2]

theorem turn_alike (h : Alike R source other) (q : ListQuery) (last : Option String)
    (url : String) {s : Session σ} {t : Session τ} (hst : Beside R s t) :
    (turn source q last url s).urls = (turn other q last url t).urls ∧
      (turn source q last url s).outcome = (turn other q last url t).outcome ∧
      Beside R (turn source q last url s).session (turn other q last url t).session := by
  obtain ⟨hurls, hout, hbeside⟩ := requestTurn_alike h url none hst
  simp only [turn, hout]
  split
  · rename_i datestamp _
    obtain ⟨hurls₂, hout₂, hbeside₂⟩ :=
      requestTurn_alike h (q.urlSince (some datestamp)) (some datestamp) hbeside
    exact ⟨congrArg (List.cons url) hurls₂, hout₂, hbeside₂⟩
  · exact ⟨hurls, hout, hbeside⟩

theorem asked_congr {t : Turn σ} {t' : Turn τ} (h : t.urls = t'.urls) (c : Cursor) :
    asked t c = asked t' c := by
  simp only [asked, h]

theorem afterTurn_congr {t : Turn σ} {t' : Turn τ} (hurls : t.urls = t'.urls)
    (hout : t.outcome = t'.outcome) (c : Cursor) : afterTurn t c = afterTurn t' c := by
  simp only [afterTurn, asked, hurls, hout]

/-- A cursor answers the same on sources that answer alike. -/
theorem next_alike (h : Alike R source other) (c : Cursor) {s : Session σ} {t : Session τ}
    (hst : Beside R s t) :
    (c.next source s).1 = (c.next other t).1 ∧
      (c.next source s).2.1 = (c.next other t).2.1 ∧
      Beside R (c.next source s).2.2 (c.next other t).2.2 := by
  suffices hs : ∀ a c' s', Next source c s a c' s' →
      ∃ t', Next other c t a c' t' ∧ Beside R s' t' by
    obtain ⟨a, c', s', hnext⟩ := exists_next source c s
    obtain ⟨t', hnext', hbeside⟩ := hs a c' s' hnext
    rw [hnext.eq, hnext'.eq]
    exact ⟨rfl, rfl, hbeside⟩
  intro a c' s' hnext
  cases hnext with
  | finished hdone => exact ⟨t, .finished hdone, hst⟩
  | aborted hopen hup => exact ⟨t, .aborted hopen (hst.2 ▸ hup), hst⟩
  | queued r rest hopen hdown hqueue => exact ⟨t, .queued r rest hopen (hst.2 ▸ hdown) hqueue, hst⟩
  | exhausted hopen hdown hqueue hurl =>
    exact ⟨t, .exhausted hopen (hst.2 ▸ hdown) hqueue hurl, hst⟩
  | abandoned url turn₁ hopen hdown hqueue hurl hturn hnone =>
    subst hturn
    obtain ⟨hurls, hout, hbeside⟩ := turn_alike h c.query c.lastDatestamp url hst
    rw [asked_congr hurls]
    exact ⟨_, .abandoned url _ hopen (hst.2 ▸ hdown) hqueue hurl rfl (hout ▸ hnone), hbeside⟩
  | failed url turn₁ e hopen hdown hqueue hurl hturn herror =>
    subst hturn
    obtain ⟨hurls, hout, hbeside⟩ := turn_alike h c.query c.lastDatestamp url hst
    rw [asked_congr hurls]
    exact ⟨_, .failed url _ e hopen (hst.2 ▸ hdown) hqueue hurl rfl (hout ▸ herror), hbeside⟩
  | turned url turn₁ page r rest hopen hdown hqueue hurl hturn hpage hrecords =>
    subst hturn
    obtain ⟨hurls, hout, hbeside⟩ := turn_alike h c.query c.lastDatestamp url hst
    rw [asked_congr hurls]
    exact ⟨_, .turned url _ page r rest hopen (hst.2 ▸ hdown) hqueue hurl rfl (hout ▸ hpage)
      hrecords, hbeside⟩

theorem start_alike (h : Alike R source other) (c : Cursor) {s : Session σ} {t : Session τ}
    (hst : Beside R s t) :
    (c.start source s).1 = (c.start other t).1 ∧
      (c.start source s).2.1 = (c.start other t).2.1 ∧
      Beside R (c.start source s).2.2 (c.start other t).2.2 := by
  suffices hs : ∀ r c' s', Start source c s r c' s' →
      ∃ t', Start other c t r c' t' ∧ Beside R s' t' by
    obtain ⟨r, c', s', hstart⟩ := exists_start source c s
    obtain ⟨t', hstart', hbeside⟩ := hs r c' s' hstart
    rw [hstart.eq, hstart'.eq]
    exact ⟨rfl, rfl, hbeside⟩
  intro r c' s' hstart
  cases hstart with
  | idle hidle => exact ⟨t, .idle (hst.2 ▸ hidle), hst⟩
  | failed url turn₁ e hpages hopen hdown hurl hturn herror =>
    subst hturn
    obtain ⟨hurls, hout, hbeside⟩ := turn_alike h c.query c.lastDatestamp url hst
    rw [asked_congr hurls]
    exact ⟨_, .failed url _ e hpages hopen (hst.2 ▸ hdown) hurl rfl (hout ▸ herror), hbeside⟩
  | begun url turn₁ hpages hopen hdown hurl hturn hresult =>
    subst hturn
    obtain ⟨hurls, hout, hbeside⟩ := turn_alike h c.query c.lastDatestamp url hst
    rw [afterTurn_congr hurls hout]
    refine ⟨_, .begun url _ hpages hopen (hst.2 ▸ hdown) hurl rfl ?_, hbeside⟩
    rw [← hresult, Turn.result, Turn.result, hout]

/-- All answers up to the end are the same on sources that answer alike. -/
theorem drain_alike (h : Alike R source other) (limit : ℕ) (c : Cursor) {s : Session σ}
    {t : Session τ} (hst : Beside R s t) :
    (c.drain source limit s).1 = (c.drain other limit t).1 ∧
      (c.drain source limit s).2.1 = (c.drain other limit t).2.1 ∧
      Beside R (c.drain source limit s).2.2 (c.drain other limit t).2.2 := by
  induction limit generalizing c s t with
  | zero => exact ⟨rfl, rfl, hst⟩
  | succ limit ih =>
    have hnext := next_alike h c hst
    rcases hs : c.next source s with ⟨a, c₁, s₁⟩
    rcases ht : c.next other t with ⟨b, d₁, t₁⟩
    simp only [hs, ht] at hnext
    obtain ⟨rfl, rfl, hbeside⟩ := hnext
    cases a with
    | none => simpa only [Cursor.drain, hs, ht, true_and] using hbeside
    | some answer =>
      obtain ⟨hanswers, hcursor, hbeside⟩ := ih c₁ hbeside
      simp only [Cursor.drain, hs, ht]
      exact ⟨congrArg (List.cons answer) hanswers, hcursor, hbeside⟩

/-! Books on the requests -/

theorem recorded_alike (source : Source σ) :
    Alike (fun (booked : List String × σ) state => booked.2 = state) source.recorded source := by
  intro url booked state hstate
  subst hstate
  exact ⟨rfl, rfl, rfl⟩

/-- The requests behind the first `limit` answers of a cursor, in order. -/
def requested (source : Source σ) (limit : ℕ) (c : Cursor) (s : Session σ) : List String :=
  (c.drain source.recorded limit ⟨([], s.state), s.aborted⟩).2.2.state.1.reverse

/-- A request as a bystander sees it: whether the flag was up when it began, and when it ended. -/
structure Fetch where
  url : String
  answer : Except Error String
  upBefore : Bool
  upAfter : Bool

/-- The state of a source that is watched: what the flag is, and the requests so far. -/
structure Watch (σ : Type) where
  state : σ
  up : Bool
  fetches : List Fetch := []

/-- The source with a watch on the flag. While a call lasts, only the source itself raises it. -/
def watched (source : Source σ) : Source (Watch σ) := fun url w =>
  let reply := source url w.state
  let up := w.up || reply.raised
  { answer := reply.answer,
    state := { state := reply.state, up, fetches := w.fetches ++ [⟨url, reply.answer, w.up, up⟩] },
    raised := reply.raised }

/-- The watch begins with what the flag is. -/
def watch (s : Session σ) : Session (Watch σ) where
  state := { state := s.state, up := s.aborted }
  aborted := s.aborted

theorem watched_alike (source : Source σ) :
    Alike (fun (w : Watch σ) state => w.state = state) (watched source) source := by
  intro url w state hstate
  subst hstate
  exact ⟨rfl, rfl, rfl⟩

end Harvest.Observation
