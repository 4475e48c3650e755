import Harvest.Proofs.Observation

/-!
The whole life of a cursor: calls of `start` and `next` in any order, with the abort flag raised or
lowered between them, or raised by the source during a request. The invariant ties the cursor to all
that was seen of it: until it is finished, the records handed out and those in its queue are those
of the pages received with the flag down, and afterwards the queue is empty for good.
-/
namespace Harvest.Lifetime

open Fetching Observation

variable {σ : Type}

inductive Call where
  | start
  | next
  | raise
  | lower

inductive Answer where
  | started (result : Except Error Unit)
  | gave (answer : Option (Except Error Record))
  | flagged

/-- A call seen from outside: its answer and the requests made meanwhile. -/
structure Event where
  answer : Answer
  fetches : List Fetch

namespace Event

/-- The call told of an end, or of an error. -/
def ended (e : Event) : Bool :=
  match e.answer with
  | .started (.error _) | .gave none | .gave (some (.error _)) => true
  | _ => false

def failed (e : Event) : Bool :=
  match e.answer with
  | .started (.error _) | .gave (some (.error _)) => true
  | _ => false

def record? (e : Event) : Option Record :=
  match e.answer with
  | .gave (some (.ok r)) => some r
  | _ => none

/-- A call after the end: `next` answers nothing, `start` no error, and nothing is requested. -/
def Idle (e : Event) : Prop :=
  e.fetches = [] ∧
    (e.answer = .gave none ∨ e.answer = .started (.ok ()) ∨ e.answer = .flagged)

/-- What is true of any call: a request begins with the flag down, there are two at most, and if
the flag was raised during one of them that is no error. -/
def Restrained (e : Event) : Prop :=
  (∀ f ∈ e.fetches, f.upBefore = false) ∧ e.fetches.length ≤ 2 ∧
    ∀ f ∈ e.fetches, f.upAfter = true → e.failed = false

end Event

/-- The page a request brought, if the flag was down at the end and the page has records. -/
def usable (f : Fetch) : Option Page :=
  if f.upAfter || (Page.ofAnswer f.answer).1.records.isEmpty then none
  else some (Page.ofAnswer f.answer).1

def pages (events : List Event) : List Page :=
  (events.flatMap Event.fetches).filterMap usable

def given (events : List Event) : List Record := events.filterMap Event.record?

structure Life (σ : Type) where
  cursor : Cursor
  session : Session σ

def begun (q : ListQuery) (state : σ) (up : Bool) : Life σ := ⟨.ofQuery q, ⟨state, up⟩⟩

/-- One call. The requests are those the same call makes on the watched source. -/
def call (source : Source σ) (l : Life σ) : Call → Event × Life σ
  | .start =>
    let (result, c, s) := l.cursor.start source l.session
    let seen := l.cursor.start (watched source) (watch l.session)
    (⟨.started result, seen.2.2.state.fetches⟩, ⟨c, s⟩)
  | .next =>
    let (answer, c, s) := l.cursor.next source l.session
    let seen := l.cursor.next (watched source) (watch l.session)
    (⟨.gave answer, seen.2.2.state.fetches⟩, ⟨c, s⟩)
  | .raise => (⟨.flagged, []⟩, { l with session := { l.session with aborted := true } })
  | .lower => (⟨.flagged, []⟩, { l with session := { l.session with aborted := false } })

def run (source : Source σ) : List Call → Life σ → List Event × Life σ
  | [], l => ([], l)
  | k :: calls, l =>
    let (e, l) := call source l k
    let (events, l) := run source calls l
    (e :: events, l)

/-! One turn, with the requests it makes -/

/-- The page a turn brought. -/
def brought (outcome : Option (Except Error Page)) : Option Page :=
  match outcome with
  | some (.ok page) => some page
  | _ => none

/-- What the requests of a turn tell of its outcome. The page it brings is the only one among them
that can be used. -/
structure Tells (fetches : List Fetch) (outcome : Option (Except Error Page)) : Prop where
  down : ∀ f ∈ fetches, f.upBefore = false
  few : fetches.length ≤ 2
  raised : ∀ f ∈ fetches, f.upAfter = true → outcome = none
  used : fetches.filterMap usable = (brought outcome).toList

theorem Tells.single {f : Fetch} {outcome : Option (Except Error Page)}
    (hbefore : f.upBefore = false) (hafter : f.upAfter = outcome.isNone)
    (huse : usable f = brought outcome) : Tells [f] outcome where
  down := by simpa using hbefore
  few := by simp
  raised := by simp [hafter]
  used := by
    rw [← huse]
    cases h : usable f with
    | none => simp [h]
    | some page => simp [h]

/-- A request in vain before it changes nothing. -/
theorem Tells.double {f g : Fetch} {outcome : Option (Except Error Page)} (h : Tells [g] outcome)
    (hbefore : f.upBefore = false) (hafter : f.upAfter = false) (hvain : usable f = none) :
    Tells [f, g] outcome where
  down := by simpa [hbefore] using h.down
  few := by simp
  raised := by simpa [hafter] using h.raised
  used := by
    rw [List.filterMap_cons_none hvain]
    exact h.used

/-- A single request on a watched source. -/
theorem request_watched (source : Source σ) (url : String) (last : Option String)
    (s : Session (Watch σ)) (hsync : s.state.up = s.aborted) :
    let t := request (watched source) url last s
    t.session.state.up = t.session.aborted ∧ t.session.aborted = t.outcome.isNone ∧
      ∃ f, t.session.state.fetches = s.state.fetches ++ [f] ∧ f.upBefore = s.aborted ∧
        f.upAfter = t.outcome.isNone ∧ usable f = brought t.outcome := by
  intro t
  have hanswer : (s.request (watched source) url).1 = (source url s.state.state).answer := rfl
  have hup : (s.request (watched source) url).2.state.up =
      (s.request (watched source) url).2.aborted := by
    simp [Session.request, watched, hsync]
  have hfetches : (s.request (watched source) url).2.state.fetches = s.state.fetches ++
      [⟨url, (source url s.state.state).answer, s.aborted,
        (s.request (watched source) url).2.aborted⟩] := by
    simp [Session.request, watched, hsync]
  rcases request_cases (watched source) url last s with
    ⟨haborted, heq⟩ | ⟨hdown, hrecords, heq⟩ | ⟨hdown, hrecords, heq⟩
  · refine ⟨?_, ?_, _, by simpa only [t, heq] using hfetches, rfl, ?_, ?_⟩
    · simpa [t, heq] using hup
    · simp [t, heq, haborted]
    · simp [t, heq, haborted]
    · simp [t, heq, haborted, usable, brought]
  · rw [hanswer] at hrecords
    refine ⟨?_, ?_, _, by simpa only [t, heq] using hfetches, rfl, ?_, ?_⟩
    · simpa [t, heq] using hup
    · simp [t, heq, hdown]
    · simp [t, heq, hdown]
    · simp [t, heq, usable, brought, hrecords]
  · rw [hanswer] at hrecords
    refine ⟨?_, ?_, _, by simpa only [t, heq] using hfetches, rfl, ?_, ?_⟩
    · simpa [t, heq] using hup
    · simp [t, heq, hdown]
    · simp [t, heq, hdown]
    · simp [t, heq, hdown, usable, brought, hrecords, hanswer]

/-- The requests of a turn that begins with the flag down. -/
theorem turn_watched (source : Source σ) (q : ListQuery) (last : Option String) (url : String)
    (s : Session σ) (hdown : s.aborted = false) :
    let t := turn (watched source) q last url (watch s)
    Tells t.session.state.fetches t.outcome := by
  intro t
  obtain ⟨hsync, haborted, f, hfetches, hbefore, hafter, huse⟩ :=
    request_watched source url none (watch s) rfl
  generalize hfirst : request (watched source) url none (watch s) = first at *
  have hbefore : f.upBefore = false := hbefore.trans hdown
  have hfetches : first.session.state.fetches = [f] := hfetches
  have honce (ht : t = first) : Tells t.session.state.fetches t.outcome := by
    rw [ht, hfetches]
    exact .single hbefore hafter huse
  cases hout : first.outcome with
  | none => exact honce (by simp [t, turn, hfirst, hout])
  | some outcome =>
    cases outcome with
    | ok page => exact honce (by simp [t, turn, hfirst, hout])
    | error e =>
      cases last with
      | none => exact honce (by simp [t, turn, hfirst, hout])
      | some datestamp =>
        have hdown₂ : first.session.aborted = false := by simpa [hout] using haborted
        obtain ⟨_, _, g, hfetches₂, hbefore₂, hafter₂, huse₂⟩ :=
          request_watched source (q.urlSince (some datestamp)) (some datestamp) first.session hsync
        have hsession : t.session.state.fetches = [f, g] := by
          simp [t, turn, hfirst, hout, hfetches₂, hfetches]
        have houtcome : t.outcome = (request (watched source) (q.urlSince (some datestamp))
            (some datestamp) first.session).outcome := by
          simp [t, turn, hfirst, hout]
        rw [← houtcome] at hafter₂ huse₂
        rw [hsession]
        refine Tells.double (.single (hbefore₂.trans hdown₂) hafter₂ huse₂) hbefore ?_ ?_
        · simpa [hout] using hafter
        · simpa [hout, brought] using huse

/-! One call -/

/-- Version and size of a list by a page of it. -/
def label (page : Page) : Option String × Option ℕ :=
  (page.records.head?.map Record.identifier, page.token.bind (·.completeListSize))

theorem accept_label (c : Cursor) (page : Page) :
    ((c.accept page).version, (c.accept page).expectedSize) =
      if c.version.isNone then label page else (c.version, c.expectedSize) := by
  unfold Cursor.accept label
  dsimp only
  split <;> rfl

/-- Nothing is queued before the first request, and nothing after the end. -/
structure Settled (c : Cursor) : Prop where
  fresh : c.pages = 0 → c.queue = []
  empty : c.finished = true → c.queue = []

/-- What a call can do to a cursor: a page may come in and a record may go out, and the rest stays
in the queue unless this is the end. -/
structure Change (c : Cursor) (e : Event) (c' : Cursor) : Prop where
  restrained : e.Restrained
  settled : Settled c'
  flow : e.record?.toList ++ c'.queue <+:
    c.queue ++ (e.fetches.filterMap usable).flatMap Page.records
  whole : c'.finished = false → c.finished = false ∧
    e.record?.toList ++ c'.queue = c.queue ++ (e.fetches.filterMap usable).flatMap Page.records
  labelled : (c'.version, c'.expectedSize) =
    if c.version.isNone then
      ((e.fetches.filterMap usable).head?.map label).getD (c.version, c.expectedSize)
    else (c.version, c.expectedSize)
  ended : e.ended = true → c'.finished = true
  after : c.finished = true → e.Idle ∧ c'.finished = true

/-- A call without a request. -/
theorem Change.still {c c' : Cursor} {e : Event} (hfetches : e.fetches = [])
    (hsettled : Settled c') (hflow : e.record?.toList ++ c'.queue <+: c.queue)
    (hwhole : c'.finished = false →
      c.finished = false ∧ e.record?.toList ++ c'.queue = c.queue)
    (hlabel : (c'.version, c'.expectedSize) = (c.version, c.expectedSize))
    (hended : e.ended = true → c'.finished = true)
    (hafter : c.finished = true → e.Idle ∧ c'.finished = true) : Change c e c' where
  restrained := by simp [Event.Restrained, hfetches]
  settled := hsettled
  flow := by simpa [hfetches] using hflow
  whole := by simpa [hfetches] using hwhole
  labelled := by simp [hfetches, hlabel]
  ended := hended
  after := hafter

/-- A call with one turn, on a cursor that has nothing queued. -/
theorem Change.fetched {c c' : Cursor} {e : Event} {outcome : Option (Except Error Page)}
    (htells : Tells e.fetches outcome) (hopen : c.finished = false) (hqueue : c.queue = [])
    (hfailed : outcome = none → e.failed = false) (hpages : 0 < c'.pages)
    (hdone : c'.finished = true → c'.queue = [])
    (hflow : e.record?.toList ++ c'.queue = ((brought outcome).map Page.records).getD [])
    (hlabel : (c'.version, c'.expectedSize) =
      if c.version.isNone then ((brought outcome).map label).getD (c.version, c.expectedSize)
      else (c.version, c.expectedSize))
    (hended : e.ended = true → c'.finished = true) : Change c e c' := by
  have hwhole : e.record?.toList ++ c'.queue =
      c.queue ++ (e.fetches.filterMap usable).flatMap Page.records := by
    rw [hflow, hqueue, htells.used]
    cases brought outcome with
    | none => rfl
    | some page => simp
  refine {
    restrained := ⟨htells.down, htells.few, fun f hf hup => hfailed (htells.raised f hf hup)⟩
    settled := ⟨fun hzero => by omega, hdone⟩
    flow := hwhole ▸ List.prefix_refl _
    whole := fun _ => ⟨hopen, hwhole⟩
    labelled := ?_
    ended := hended
    after := fun h => by simp [hopen] at h }
  rw [hlabel, htells.used]
  cases brought outcome with
  | none => rfl
  | some page => rfl

theorem next_change (source : Source σ) (c : Cursor) (s : Session σ) (hsettled : Settled c) :
    Change c (call source ⟨c, s⟩ .next).1 (call source ⟨c, s⟩ .next).2.cursor := by
  obtain ⟨hanswer, hcursor, _⟩ := next_alike (watched_alike source) c
    (s := watch s) (t := s) ⟨rfl, rfl⟩
  simp only [call, ← hanswer, ← hcursor]
  obtain ⟨a, c', s', hnext⟩ := exists_next (watched source) c (watch s)
  simp only [hnext.eq]
  cases hnext with
  | finished hdone =>
    refine Change.still rfl hsettled ?_ ?_ rfl ?_ ?_
    · simp [Event.record?]
    · simp [hdone]
    · simp [hdone]
    · exact fun _ => ⟨⟨rfl, Or.inl rfl⟩, hdone⟩
  | aborted hopen hup =>
    refine Change.still rfl ⟨fun _ => rfl, fun _ => rfl⟩ ?_ ?_ rfl ?_ ?_
    · simp [Event.record?, Cursor.stop]
    · simp [Cursor.stop]
    · simp [Cursor.stop]
    · simp [hopen]
  | queued r rest hopen hdown hqueue =>
    refine Change.still rfl ⟨?_, ?_⟩ ?_ ?_ rfl ?_ ?_
    · intro hpages
      rw [hsettled.fresh hpages] at hqueue
      cases hqueue
    · simp [hopen]
    · simp [Event.record?, hqueue]
    · simp [Event.record?, hqueue, hopen]
    · simp [Event.ended]
    · simp [hopen]
  | exhausted hopen hdown hqueue hurl =>
    refine Change.still rfl ⟨fun _ => hqueue, fun _ => hqueue⟩ ?_ ?_ rfl ?_ ?_
    · simp [Event.record?]
    · simp
    · simp
    · simp [hopen]
  | abandoned url t hopen hdown hqueue hurl hturn hnone =>
    subst hturn
    have hpos := turn_urls_pos (watched source) c.query c.lastDatestamp url (watch s)
    refine Change.fetched (turn_watched source c.query c.lastDatestamp url s hdown) hopen hqueue
      (fun _ => rfl) (Nat.lt_add_left _ hpos) (fun _ => rfl) ?_ ?_ (fun _ => rfl)
    · simp [hnone, brought, Event.record?, Cursor.stop]
    · simp [hnone, brought, Cursor.stop, asked]
  | failed url t e hopen hdown hqueue hurl hturn herror =>
    subst hturn
    have hpos := turn_urls_pos (watched source) c.query c.lastDatestamp url (watch s)
    refine Change.fetched (turn_watched source c.query c.lastDatestamp url s hdown) hopen hqueue
      ?_ (Nat.lt_add_left _ hpos) (fun _ => hqueue) ?_ ?_ (fun _ => rfl)
    · simp [herror]
    · simp [herror, brought, Event.record?, hqueue]
    · simp [herror, brought, asked]
  | turned url t page r rest hopen hdown hqueue hurl hturn hpage hrecords =>
    subst hturn
    have hpos := turn_urls_pos (watched source) c.query c.lastDatestamp url (watch s)
    refine Change.fetched (turn_watched source c.query c.lastDatestamp url s hdown) hopen hqueue
      (fun _ => rfl) ?_ ?_ ?_ ?_ ?_
    · simpa [hand, asked] using Nat.lt_add_left _ hpos
    · simp [hopen]
    · simp [hpage, brought, Event.record?, hrecords]
    · simp only [hpage, brought, Option.map_some, Option.getD_some]
      exact accept_label (asked _ c) page
    · simp [Event.ended]

theorem start_change (source : Source σ) (c : Cursor) (s : Session σ) (hsettled : Settled c) :
    Change c (call source ⟨c, s⟩ .start).1 (call source ⟨c, s⟩ .start).2.cursor := by
  obtain ⟨hanswer, hcursor, _⟩ := start_alike (watched_alike source) c
    (s := watch s) (t := s) ⟨rfl, rfl⟩
  simp only [call, ← hanswer, ← hcursor]
  obtain ⟨a, c', s', hstart⟩ := exists_start (watched source) c (watch s)
  simp only [hstart.eq]
  cases hstart with
  | idle hidle =>
    refine Change.still rfl hsettled ?_ ?_ rfl ?_ ?_
    · simp [Event.record?]
    · simp [Event.record?]
    · simp [Event.ended]
    · exact fun hdone => ⟨⟨rfl, Or.inr (Or.inl rfl)⟩, hdone⟩
  | failed url t e hpages hopen hdown hurl hturn herror =>
    subst hturn
    have hpos := turn_urls_pos (watched source) c.query c.lastDatestamp url (watch s)
    have hqueue := hsettled.fresh hpages
    refine Change.fetched (turn_watched source c.query c.lastDatestamp url s hdown) hopen hqueue
      ?_ (Nat.lt_add_left _ hpos) (fun _ => hqueue) ?_ ?_ (fun _ => rfl)
    · simp [herror]
    · simp [herror, brought, Event.record?, hqueue]
    · simp [herror, brought, asked]
  | begun url t hpages hopen hdown hurl hturn hresult =>
    subst hturn
    have hpos := turn_urls_pos (watched source) c.query c.lastDatestamp url (watch s)
    have hqueue := hsettled.fresh hpages
    have htells := turn_watched source c.query c.lastDatestamp url s hdown
    cases hout : (turn (watched source) c.query c.lastDatestamp url (watch s)).outcome with
    | none =>
      simp only [afterTurn, hout]
      refine Change.fetched htells hopen hqueue (fun _ => rfl) (Nat.lt_add_left _ hpos) ?_ ?_ ?_ ?_
      · simp [hopen]
      · simp [hout, brought, Event.record?, hqueue]
      · simp [hout, brought, asked]
      · simp [Event.ended]
    | some outcome =>
      cases outcome with
      | error e => simp [Turn.result, hout] at hresult
      | ok page =>
        simp only [afterTurn, hout]
        refine Change.fetched htells hopen hqueue (fun _ => rfl) ?_ ?_ ?_ ?_ ?_
        · simpa [asked] using Nat.lt_add_left _ hpos
        · simp [hopen]
        · simp [hout, brought, Event.record?, hqueue]
        · simp only [hout, brought, Option.map_some, Option.getD_some]
          exact accept_label (asked _ c) page
        · simp [Event.ended]

theorem call_change (source : Source σ) (l : Life σ) (k : Call) (hsettled : Settled l.cursor) :
    Change l.cursor (call source l k).1 (call source l k).2.cursor := by
  cases k with
  | start => exact start_change source l.cursor l.session hsettled
  | next => exact next_change source l.cursor l.session hsettled
  | raise =>
    exact Change.still rfl hsettled (List.prefix_refl _) (fun hopen => ⟨hopen, rfl⟩) rfl
      (fun h => by simp [call, Event.ended] at h) (fun hdone => ⟨⟨rfl, Or.inr (Or.inr rfl)⟩, hdone⟩)
  | lower =>
    exact Change.still rfl hsettled (List.prefix_refl _) (fun hopen => ⟨hopen, rfl⟩) rfl
      (fun h => by simp [call, Event.ended] at h) (fun hdone => ⟨⟨rfl, Or.inr (Or.inr rfl)⟩, hdone⟩)

/-! All calls -/

/-- The cursor agrees with all that was seen of it. -/
structure Accounts (events : List Event) (c : Cursor) : Prop where
  settled : Settled c
  restrained : ∀ e ∈ events, e.Restrained
  flow : given events ++ c.queue <+: (pages events).flatMap Page.records
  whole : c.finished = false → given events ++ c.queue = (pages events).flatMap Page.records
  labelled : (c.version, c.expectedSize) = ((pages events).head?.map label).getD (none, none)
  ended : ∀ e ∈ events, e.ended = true → c.finished = true
  once : (events.filter Event.failed).length ≤ 1

theorem usable_records {f : Fetch} {page : Page} (h : usable f = some page) :
    page.records ≠ [] := by
  unfold usable at h
  split at h
  · cases h
  · rename_i hgood
    rw [← Option.some.inj h]
    intro hnone
    simp [hnone] at hgood

theorem pages_records (events : List Event) : ∀ page ∈ pages events, page.records ≠ [] := by
  intro page hpage
  obtain ⟨f, _, hf⟩ := List.mem_filterMap.mp hpage
  exact usable_records hf

theorem failed_ended (e : Event) (h : e.failed = true) : e.ended = true := by
  unfold Event.failed at h
  unfold Event.ended
  split at h
  · rename_i heq
    rw [heq]
  · rename_i heq
    rw [heq]
  · cases h

theorem Event.Idle.not_failed {e : Event} (h : e.Idle) : e.failed = false := by
  rcases h.2 with heq | heq | heq
  · simp [failed, heq]
  · simp [failed, heq]
  · simp [failed, heq]

theorem Event.Idle.record?_eq {e : Event} (h : e.Idle) : e.record? = none := by
  rcases h.2 with heq | heq | heq
  · simp [record?, heq]
  · simp [record?, heq]
  · simp [record?, heq]

theorem accounts_begun (q : ListQuery) : Accounts [] (Cursor.ofQuery q) where
  settled := ⟨fun _ => rfl, fun _ => rfl⟩
  restrained := by simp
  flow := List.prefix_refl _
  whole := fun _ => rfl
  labelled := rfl
  ended := by simp
  once := by simp

/-- Version and size stay those of the first page. -/
theorem label_append {c c' : Cursor} {known new : List Page}
    (hrecords : ∀ page ∈ known, page.records ≠ [])
    (h : (c.version, c.expectedSize) = (known.head?.map label).getD (none, none))
    (hnew : (c'.version, c'.expectedSize) =
      if c.version.isNone then (new.head?.map label).getD (c.version, c.expectedSize)
      else (c.version, c.expectedSize)) :
    (c'.version, c'.expectedSize) = ((known ++ new).head?.map label).getD (none, none) := by
  cases known with
  | nil =>
    obtain ⟨hversion, _⟩ := Prod.mk.inj h
    rw [hnew, h, hversion]
    rfl
  | cons page known =>
    obtain ⟨r, rest, hpage⟩ := List.exists_cons_of_ne_nil (hrecords page List.mem_cons_self)
    have hversion : c.version = some r.identifier := by
      rw [(Prod.mk.inj h).1, hpage]
      rfl
    rw [hnew, if_neg (by simp [hversion]), h]
    rfl

theorem Accounts.step {events : List Event} {c c' : Cursor} {e : Event} (h : Accounts events c)
    (hchange : Change c e c') : Accounts (events ++ [e]) c' := by
  have hpages : pages (events ++ [e]) = pages events ++ e.fetches.filterMap usable := by
    simp [pages]
  have hgiven : given (events ++ [e]) = given events ++ e.record?.toList := by
    unfold given
    rw [List.filterMap_append]
    cases hr : e.record? with
    | none => simp [hr]
    | some r => simp [hr]
  refine {
    settled := hchange.settled
    restrained := ?_
    flow := ?_
    whole := ?_
    labelled := ?_
    ended := ?_
    once := ?_ }
  · intro e' he'
    rcases List.mem_append.mp he' with hold | hnew
    · exact h.restrained e' hold
    · exact List.mem_singleton.mp hnew ▸ hchange.restrained
  · rw [hgiven, hpages, List.append_assoc, List.flatMap_append]
    cases hdone : c.finished with
    | true =>
      obtain ⟨hidle, hdone'⟩ := hchange.after hdone
      have hflow := h.flow
      rw [h.settled.empty hdone] at hflow
      rw [hchange.settled.empty hdone', hidle.record?_eq, hidle.1]
      simpa using hflow
    | false =>
      rw [← h.whole hdone, List.append_assoc]
      exact (List.prefix_append_right_inj _).mpr hchange.flow
  · intro hopen'
    obtain ⟨hopen, hwhole⟩ := hchange.whole hopen'
    rw [hgiven, hpages, List.append_assoc, hwhole, List.flatMap_append, ← h.whole hopen,
      List.append_assoc]
  · rw [hpages]
    exact label_append (pages_records events) h.labelled hchange.labelled
  · intro e' he' hended
    rcases List.mem_append.mp he' with hold | hnew
    · exact (hchange.after (h.ended e' hold hended)).2
    · exact hchange.ended (List.mem_singleton.mp hnew ▸ hended)
  · rw [List.filter_append, List.length_append]
    cases hfailed : e.failed with
    | false => simpa [hfailed] using h.once
    | true =>
      have hnone : events.filter Event.failed = [] := by
        apply List.filter_eq_nil_iff.mpr
        intro e' he' hfailed'
        have hdone := h.ended e' he' (failed_ended e' hfailed')
        rw [(hchange.after hdone).1.not_failed] at hfailed
        cases hfailed
      simp [hnone, hfailed]

theorem accounts_run (source : Source σ) (calls : List Call) (events : List Event) (l : Life σ)
    (h : Accounts events l.cursor) :
    Accounts (events ++ (run source calls l).1) (run source calls l).2.cursor := by
  induction calls generalizing events l with
  | nil => simpa [run] using h
  | cons k calls ih =>
    have hrest := ih _ _ (h.step (call_change source l k h.settled))
    rw [List.append_assoc] at hrest
    exact hrest

/-- Once a cursor is finished, no order of calls gets anything more out of it. -/
theorem idle_run (source : Source σ) (calls : List Call) (l : Life σ)
    (hsettled : Settled l.cursor) (hdone : l.cursor.finished = true) :
    ∀ e ∈ (run source calls l).1, e.Idle := by
  induction calls generalizing l with
  | nil => simp [run]
  | cons k calls ih =>
    have hchange := call_change source l k hsettled
    obtain ⟨hidle, hdone'⟩ := hchange.after hdone
    intro e he
    rcases List.mem_cons.mp he with rfl | he
    · exact hidle
    · exact ih _ hchange.settled hdone' e he

/-- However a cursor is called, and whenever the flag goes up or down:
no request begins with the flag up, a call makes two at most and its loop ends, and a flag raised
meanwhile is no error. The records handed out or queued come in order from the pages received with
the flag down, and version and size from the first of them. After a call that told of the end or of
an error the queue is empty and later calls are idle, so that there is one error at most. Version
and size do not change any more once they are there. -/
theorem end_and_abort_final (source : Source σ) (q : ListQuery) (state : σ) (up : Bool)
    (calls more : List Call) :
    let (events, l) := run source calls (begun q state up)
    let (later, l') := run source more l
    (∀ e ∈ events, (∀ f ∈ e.fetches, f.upBefore = false) ∧ e.fetches.length ≤ 2 ∧
      ∀ f ∈ e.fetches, f.upAfter = true → e.failed = false) ∧
    (∃ answer c s, l.cursor.next source l.session = (answer, c, s) ∧
      Loop source l.cursor l.session answer c s) ∧
    given events ++ l.cursor.queue <+: (pages events).flatMap Page.records ∧
    l.cursor.version =
      (pages events).head?.bind (fun page => page.records.head?.map Record.identifier) ∧
    l.cursor.expectedSize =
      (pages events).head?.bind (fun page => page.token.bind (·.completeListSize)) ∧
    (∀ e ∈ events, e.ended = true → l.cursor.queue = [] ∧ ∀ e' ∈ later, e'.Idle) ∧
    (events.filter Event.failed).length ≤ 1 ∧
    (l.cursor.version.isSome = true →
      l'.cursor.version = l.cursor.version ∧ l'.cursor.expectedSize = l.cursor.expectedSize) ∧
    (l.cursor.expectedSize.isSome = true → l.cursor.version.isSome = true) := by
  have h := accounts_run source calls [] (begun q state up) (accounts_begun q)
  rcases hrun : run source calls (begun q state up) with ⟨events, l⟩
  rw [hrun, List.nil_append] at h
  dsimp only at h ⊢
  have hidle := idle_run source more l h.settled
  have h' := accounts_run source more events l h
  rcases hmore : run source more l with ⟨later, l'⟩
  rw [hmore] at hidle h'
  dsimp only at h' hidle ⊢
  have hlater : pages (events ++ later) = pages events ++ pages later := by
    simp [pages]
  have hlabel := Prod.mk.inj h.labelled
  have hlabel' := Prod.mk.inj h'.labelled
  rw [hlater] at hlabel'
  refine ⟨h.restrained, ?_, h.flow, ?_, ?_, ?_, h.once, ?_, ?_⟩
  · exact ⟨_, _, _, rfl, (loop_iff_next _ _ _ _ _ _).mpr rfl⟩
  · rw [hlabel.1]
    cases (pages events).head? with
    | none => rfl
    | some page => rfl
  · rw [hlabel.2]
    cases (pages events).head? with
    | none => rfl
    | some page => rfl
  · intro e he hended
    have hdone := h.ended e he hended
    exact ⟨h.settled.empty hdone, hidle hdone⟩
  · intro hversion
    cases hpages : pages events with
    | nil => simp [hlabel.1, hpages] at hversion
    | cons page rest =>
      rw [hpages] at hlabel hlabel'
      exact ⟨hlabel'.1.trans hlabel.1.symm, hlabel'.2.trans hlabel.2.symm⟩
  · intro hsize
    cases hpages : pages events with
    | nil => simp [hlabel.2, hpages] at hsize
    | cons page rest =>
      obtain ⟨r, rest, hrecords⟩ :=
        List.exists_cons_of_ne_nil (pages_records events page (by simp [hpages]))
      simp [hlabel.1, hpages, label, hrecords]

end Harvest.Lifetime
