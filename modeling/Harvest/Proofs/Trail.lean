import Harvest.Proofs.Course
import Harvest.Proofs.Pagination

/-!
The trail of a cursor through a run. A call counts the requests it makes, leaves the source where
they lead it, keeps the last datestamp handed out, and never lowers the abort flag. While the list
goes on with the flag down, the next address is that of the token of the last page taken in.
-/
namespace Harvest.Trail

open Fetching Observation Lifetime Course

variable {σ : Type}

/-! One turn, with its requests on the watched source -/

theorem turn_booked (source : Source σ) (q : ListQuery) (last : Option String) (url : String)
    (s : Session (Watch σ)) :
    let t := turn (watched source) q last url s
    t.session.state.fetches.map Fetch.url = s.state.fetches.map Fetch.url ++ t.urls ∧
      t.session.state.state = reach source s.state.state t.urls := by
  intro t
  have hrequest (url : String) (last : Option String) (s : Session (Watch σ)) :
      (request (watched source) url last s).session.state.fetches.map Fetch.url =
          s.state.fetches.map Fetch.url ++ [url] ∧
        (request (watched source) url last s).session.state.state =
          (source url s.state.state).state := by
    simp [request, Session.request, watched]
  obtain ⟨hurls, hstate⟩ := hrequest url none s
  rcases turn_cases (watched source) q last url s with heq | ⟨e, datestamp, _, _, heq⟩
  · simp only [t, heq]
    exact ⟨hurls, hstate⟩
  · obtain ⟨hurls₂, hstate₂⟩ := hrequest (q.urlSince (some datestamp)) (some datestamp)
      (request (watched source) url none s).session
    simp only [t, heq]
    refine ⟨?_, ?_⟩
    · rw [hurls₂, hurls, List.append_assoc]
      rfl
    · rw [hstate₂, hstate]
      rfl

/-- The error of a turn names the last datestamp handed out. -/
theorem turn_error {source : Source σ} {q : ListQuery} {last : Option String} {url : String}
    {s : Session σ} {e : Error} (h : (turn source q last url s).outcome = some (.error e)) :
    ∃ url' reason, e = .extraction url' last reason := by
  have hrequest (url : String) (last : Option String) (s : Session σ)
      (h : (request source url last s).outcome = some (.error e)) :
      ∃ reason, e = .extraction url last reason := by
    rcases request_cases source url last s with ⟨_, heq⟩ | ⟨_, _, heq⟩ | ⟨_, _, heq⟩
    · simp [heq] at h
    · rw [heq] at h
      exact ⟨_, (Except.error.inj (Option.some.inj h)).symm⟩
    · simp [heq] at h
  unfold turn at h
  dsimp only at h
  cases last with
  | none =>
    split at h
    · rename_i hnone
      cases hnone
    · exact ⟨url, hrequest _ _ _ h⟩
  | some datestamp =>
    split at h
    · rename_i hsome
      rw [Option.some.inj hsome]
      exact ⟨_, hrequest _ _ _ h⟩
    · rename_i hfirst
      exact absurd rfl (hfirst e datestamp h)

/-- The flag is up after a turn exactly if it went up during one of its requests. -/
theorem turn_raised (source : Source σ) (q : ListQuery) (last : Option String) (url : String)
    (s : Session σ) (hdown : s.aborted = false) :
    let t := turn (watched source) q last url (watch s)
    t.session.aborted = true ↔ ∃ f ∈ t.session.state.fetches, f.upAfter = true := by
  intro t
  have htells := turn_watched source q last url s hdown
  constructor
  · intro hup
    obtain ⟨hsync, haborted, f, hfetches, _, hafter, _⟩ :=
      request_watched source url none (watch s) rfl
    rcases turn_cases (watched source) q last url (watch s) with heq | ⟨e, datestamp, _, _, heq⟩
    · rw [show t = _ from heq] at hup ⊢
      refine ⟨f, ?_, ?_⟩
      · rw [hfetches]
        exact List.mem_append_right _ (List.mem_singleton_self f)
      · rw [hafter, ← haborted, hup]
    · obtain ⟨_, haborted₂, g, hfetches₂, _, hafter₂, _⟩ :=
        request_watched source (q.urlSince (some datestamp)) (some datestamp)
          (request (watched source) url none (watch s)).session hsync
      rw [show t = _ from heq] at hup ⊢
      refine ⟨g, ?_, ?_⟩
      · dsimp only
        rw [hfetches₂]
        exact List.mem_append_right _ (List.mem_singleton_self g)
      · rw [hafter₂, ← haborted₂]
        exact hup
  · rintro ⟨f, hf, hup⟩
    rw [turn_aborted, htells.raised f hf hup]
    rfl

/-- What the requests of a turn tell of the session it leaves. -/
structure Leads (source : Source σ) (s : Session σ) (t : Turn (Watch σ)) : Prop where
  count : t.session.state.fetches.length = t.urls.length
  reached : t.session.state.state = reach source s.state (t.session.state.fetches.map Fetch.url)
  raised : t.session.aborted = true ↔ ∃ f ∈ t.session.state.fetches, f.upAfter = true

theorem turn_leads (source : Source σ) (q : ListQuery) (last : Option String) (url : String)
    (s : Session σ) (hdown : s.aborted = false) :
    Leads source s (turn (watched source) q last url (watch s)) := by
  obtain ⟨hurls, hstate⟩ := turn_booked source q last url (watch s)
  have hurls' : (turn (watched source) q last url (watch s)).session.state.fetches.map Fetch.url =
      (turn (watched source) q last url (watch s)).urls := hurls
  exact {
    count := by rw [← hurls', List.length_map]
    reached := by rw [hurls', hstate, watch]
    raised := turn_raised source q last url s hdown }

/-! One call -/

/-- A call of `next` is the call on the watched source, taken off the watch. -/
theorem call_next (source : Source σ) (c : Cursor) (s : Session σ) :
    ∃ a c' s', Next (watched source) c (watch s) a c' s' ∧
      call source ⟨c, s⟩ .next =
        (⟨.gave a, s'.state.fetches⟩, ⟨c', ⟨s'.state.state, s'.aborted⟩⟩) := by
  obtain ⟨a, c', s', hnext⟩ := exists_next (watched source) c (watch s)
  obtain ⟨hanswer, hcursor, hstate, haborted⟩ := next_alike (watched_alike source) c
    (s := watch s) (t := s) ⟨rfl, rfl⟩
  refine ⟨a, c', s', hnext, ?_⟩
  rcases hcall : c.next source s with ⟨b, d, t⟩
  simp only [hnext.eq, hcall] at hanswer hcursor hstate haborted
  simp only [call, hcall, hnext.eq, hanswer, hcursor, hstate, haborted]

theorem call_start (source : Source σ) (c : Cursor) (s : Session σ) :
    ∃ a c' s', Start (watched source) c (watch s) a c' s' ∧
      call source ⟨c, s⟩ .start =
        (⟨.started a, s'.state.fetches⟩, ⟨c', ⟨s'.state.state, s'.aborted⟩⟩) := by
  obtain ⟨a, c', s', hstart⟩ := exists_start (watched source) c (watch s)
  obtain ⟨hanswer, hcursor, hstate, haborted⟩ := start_alike (watched_alike source) c
    (s := watch s) (t := s) ⟨rfl, rfl⟩
  refine ⟨a, c', s', hstart, ?_⟩
  rcases hcall : c.start source s with ⟨b, d, t⟩
  simp only [hstart.eq, hcall] at hanswer hcursor hstate haborted
  simp only [call, hcall, hstart.eq, hanswer, hcursor, hstate, haborted]

theorem next_of_call {source : Source σ} {c : Cursor} {s : Session σ}
    {a : Option (Except Error Record)} {fetches : List Fetch} {l : Life σ}
    (h : call source ⟨c, s⟩ .next = (⟨.gave a, fetches⟩, l)) :
    ∃ c' s', Next (watched source) c (watch s) a c' s' ∧ fetches = s'.state.fetches ∧
      l = ⟨c', ⟨s'.state.state, s'.aborted⟩⟩ := by
  obtain ⟨a', c', s', hnext, hcall⟩ := call_next source c s
  rw [hcall] at h
  simp only [Prod.mk.injEq, Event.mk.injEq, Answer.gave.injEq] at h
  obtain ⟨⟨rfl, rfl⟩, rfl⟩ := h
  exact ⟨c', s', hnext, rfl, rfl⟩

theorem start_of_call {source : Source σ} {c : Cursor} {s : Session σ} {a : Except Error Unit}
    {fetches : List Fetch} {l : Life σ}
    (h : call source ⟨c, s⟩ .start = (⟨.started a, fetches⟩, l)) :
    ∃ c' s', Start (watched source) c (watch s) a c' s' ∧ fetches = s'.state.fetches ∧
      l = ⟨c', ⟨s'.state.state, s'.aborted⟩⟩ := by
  obtain ⟨a', c', s', hstart, hcall⟩ := call_start source c s
  rw [hcall] at h
  simp only [Prod.mk.injEq, Event.mk.injEq, Answer.started.injEq] at h
  obtain ⟨⟨rfl, rfl⟩, rfl⟩ := h
  exact ⟨c', s', hstart, rfl, rfl⟩

/-- What a call leaves behind, besides the records and pages of `Change`. -/
structure Passage (source : Source σ) (l : Life σ) (e : Event) (l' : Life σ) : Prop where
  query : l'.cursor.query = l.cursor.query
  pages : l'.cursor.pages = l.cursor.pages + e.fetches.length
  last : l'.cursor.lastDatestamp =
    (e.record?.bind Record.datestamp).or l.cursor.lastDatestamp
  reached : l'.session.state = reach source l.session.state (e.fetches.map Fetch.url)
  raised : l'.session.aborted = true ↔
    l.session.aborted = true ∨ ∃ f ∈ e.fetches, f.upAfter = true
  restrained : l.session.aborted = true → e.fetches = []
  onward : l'.cursor.finished = false → l'.session.aborted = false →
    (e.fetches = [] ∧ l'.cursor.nextUrl = l.cursor.nextUrl) ∨
    ∃ page, e.fetches.filterMap usable = [page] ∧
      l'.cursor.nextUrl = page.nextToken?.map l.cursor.query.resumptionUrl

/-- A call never lowers the flag. -/
theorem Passage.down {source : Source σ} {l l' : Life σ} {e : Event}
    (h : Passage source l e l') (hdown : l'.session.aborted = false) :
    l.session.aborted = false := by
  by_contra hup
  have hup' := h.raised.mpr (Or.inl (by simpa using hup))
  rw [hdown] at hup'
  cases hup'

/-- A call without a request. -/
theorem Passage.still {source : Source σ} {c c' : Cursor} {s : Session σ} {e : Event}
    (hfetches : e.fetches = []) (hquery : c'.query = c.query) (hpages : c'.pages = c.pages)
    (hlast : c'.lastDatestamp = (e.record?.bind Record.datestamp).or c.lastDatestamp)
    (hurl : c'.finished = false → c'.nextUrl = c.nextUrl) :
    Passage source ⟨c, s⟩ e ⟨c', s⟩ where
  query := hquery
  pages := by rw [hfetches, hpages, List.length_nil, Nat.add_zero]
  last := hlast
  reached := by rw [hfetches]; rfl
  raised := by simp [hfetches]
  restrained := fun _ => hfetches
  onward := fun hopen _ => Or.inl ⟨hfetches, hurl hopen⟩

/-- A call with one turn. -/
theorem Passage.turned {source : Source σ} {c c' : Cursor} {s : Session σ} {e : Event}
    {t : Turn (Watch σ)} (hleads : Leads source s t) (hfetches : e.fetches = t.session.state.fetches)
    (hdown : s.aborted = false) (hquery : c'.query = c.query)
    (hpages : c'.pages = c.pages + t.urls.length)
    (hlast : c'.lastDatestamp = (e.record?.bind Record.datestamp).or c.lastDatestamp)
    (hurl : c'.finished = false → t.session.aborted = false →
      ∃ page, e.fetches.filterMap usable = [page] ∧
        c'.nextUrl = page.nextToken?.map c.query.resumptionUrl) :
    Passage source ⟨c, s⟩ e ⟨c', ⟨t.session.state.state, t.session.aborted⟩⟩ where
  query := hquery
  pages := by rw [hfetches, hpages, hleads.count]
  last := hlast
  reached := by rw [hfetches, hleads.reached]
  raised := by simp [hfetches, hdown, hleads.raised]
  restrained := fun hup => by simp [hdown] at hup
  onward := fun hopen hdown' => Or.inr (hurl hopen hdown')

theorem next_passage (source : Source σ) (c : Cursor) (s : Session σ) :
    Passage source ⟨c, s⟩ (call source ⟨c, s⟩ .next).1 (call source ⟨c, s⟩ .next).2 := by
  obtain ⟨a, c', s', hnext, hcall⟩ := call_next source c s
  rw [hcall]
  cases hnext with
  | finished hdone =>
    exact .still rfl rfl rfl rfl (fun _ => rfl)
  | aborted hopen hup => exact .still rfl rfl rfl rfl (fun hopen' => by cases hopen')
  | queued r rest hopen hdown hqueue => exact .still rfl rfl rfl rfl (fun _ => rfl)
  | exhausted hopen hdown hqueue hurl => exact .still rfl rfl rfl rfl (fun hopen' => by cases hopen')
  | abandoned url t hopen hdown hqueue hurl hturn hnone =>
    subst hturn
    exact .turned (turn_leads source c.query c.lastDatestamp url s hdown) rfl hdown rfl rfl rfl
      (fun hopen' => by cases hopen')
  | failed url t e hopen hdown hqueue hurl hturn herror =>
    subst hturn
    exact .turned (turn_leads source c.query c.lastDatestamp url s hdown) rfl hdown rfl rfl rfl
      (fun hopen' => by cases hopen')
  | turned url t page r rest hopen hdown hqueue hurl hturn hpage hrecords =>
    subst hturn
    have htells := turn_watched source c.query c.lastDatestamp url s hdown
    refine .turned (turn_leads source c.query c.lastDatestamp url s hdown) rfl hdown ?_ ?_ ?_ ?_
    · simp
    · simp [hand, asked]
    · simp [Event.record?]
    · intro _ _
      refine ⟨page, ?_, ?_⟩
      · rw [htells.used, hpage]
        rfl
      · simp

theorem start_passage (source : Source σ) (c : Cursor) (s : Session σ) :
    Passage source ⟨c, s⟩ (call source ⟨c, s⟩ .start).1 (call source ⟨c, s⟩ .start).2 := by
  obtain ⟨a, c', s', hstart, hcall⟩ := call_start source c s
  rw [hcall]
  cases hstart with
  | idle hidle => exact .still rfl rfl rfl rfl (fun _ => rfl)
  | failed url t e hpages hopen hdown hurl hturn herror =>
    subst hturn
    exact .turned (turn_leads source c.query c.lastDatestamp url s hdown) rfl hdown rfl rfl rfl
      (fun hopen' => by cases hopen')
  | begun url t hpages hopen hdown hurl hturn hresult =>
    subst hturn
    have htells := turn_watched source c.query c.lastDatestamp url s hdown
    have hleads := turn_leads source c.query c.lastDatestamp url s hdown
    cases hout : (turn (watched source) c.query c.lastDatestamp url (watch s)).outcome with
    | none =>
      simp only [afterTurn, hout]
      refine .turned hleads rfl hdown rfl rfl rfl ?_
      intro _ hdown'
      rw [turn_aborted, hout] at hdown'
      cases hdown'
    | some outcome =>
      cases outcome with
      | error e => simp [Turn.result, hout] at hresult
      | ok page =>
        simp only [afterTurn, hout]
        refine .turned hleads rfl hdown ?_ ?_ ?_ ?_
        · simp
        · simp [asked]
        · simp [Event.record?]
        · intro _ _
          refine ⟨page, ?_, ?_⟩
          · rw [htells.used, hout]
            rfl
          · simp

/-- An error of the list comes with the flag down, and names the last datestamp handed out. -/
theorem next_error {source : Source σ} {c : Cursor} {s : Session σ} {e : Error}
    {fetches : List Fetch} {l : Life σ}
    (h : call source ⟨c, s⟩ .next = (⟨.gave (some (.error e)), fetches⟩, l)) :
    l.session.aborted = false ∧ ∃ url reason, e = .extraction url l.cursor.lastDatestamp reason := by
  obtain ⟨c', s', hnext, rfl, rfl⟩ := next_of_call h
  cases hnext with
  | failed url t _ hopen hdown hqueue hurl hturn herror =>
    subst hturn
    refine ⟨?_, turn_error herror⟩
    rw [turn_aborted, herror]
    rfl

/-- A cursor that gives a record is not finished, and the flag is down. -/
theorem next_record {source : Source σ} {c : Cursor} {s : Session σ} {record : Record}
    {fetches : List Fetch} {l : Life σ}
    (h : call source ⟨c, s⟩ .next = (⟨.gave (some (.ok record)), fetches⟩, l)) :
    l.cursor.finished = false ∧ l.session.aborted = false := by
  obtain ⟨c', s', hnext, rfl, rfl⟩ := next_of_call h
  cases hnext with
  | queued _ rest hopen hdown hqueue => exact ⟨hopen, hdown⟩
  | turned url t page _ rest hopen hdown hqueue hurl hturn hpage hrecords =>
    subst hturn
    refine ⟨by simpa using hopen, ?_⟩
    dsimp only
    rw [turn_aborted, hpage]
    rfl

/-- A new cursor is not finished by a start without an error. -/
theorem start_open {source : Source σ} {q : ListQuery} {s : Session σ} {fetches : List Fetch}
    {l : Life σ} (h : call source ⟨.ofQuery q, s⟩ .start = (⟨.started (.ok ()), fetches⟩, l)) :
    l.cursor.finished = false := by
  obtain ⟨c', s', hstart, rfl, rfl⟩ := start_of_call h
  cases hstart with
  | idle hidle => rfl
  | begun url t hpages hopen hdown hurl hturn hresult =>
    unfold afterTurn
    split
    · simpa using hopen
    · exact hopen

theorem start_error {source : Source σ} {c : Cursor} {s : Session σ} {e : Error}
    {fetches : List Fetch} {l : Life σ}
    (h : call source ⟨c, s⟩ .start = (⟨.started (.error e), fetches⟩, l)) :
    l.session.aborted = false ∧ l.cursor.version = c.version ∧
      l.cursor.expectedSize = c.expectedSize ∧
      ∃ url reason, e = .extraction url l.cursor.lastDatestamp reason := by
  obtain ⟨c', s', hstart, rfl, rfl⟩ := start_of_call h
  cases hstart with
  | failed url t _ hpages hopen hdown hurl hturn herror =>
    subst hturn
    refine ⟨?_, rfl, rfl, turn_error herror⟩
    rw [turn_aborted, herror]
    rfl

/-- A list ends because of the flag, or because nothing is queued and no address is left. -/
theorem next_none {source : Source σ} {c : Cursor} {s : Session σ} {fetches : List Fetch}
    {l : Life σ} (h : call source ⟨c, s⟩ .next = (⟨.gave none, fetches⟩, l))
    (hopen : c.finished = false) (hdown : l.session.aborted = false) :
    c.queue = [] ∧ c.nextUrl = none ∧ fetches = [] := by
  obtain ⟨c', s', hnext, rfl, rfl⟩ := next_of_call h
  dsimp only at hdown
  cases hnext with
  | finished hdone => simp [hopen] at hdone
  | aborted _ hup => simp [hdown] at hup
  | exhausted _ _ hqueue hurl => exact ⟨hqueue, hurl, rfl⟩
  | abandoned url t _ _ hqueue hurl hturn hnone =>
    subst hturn
    rw [turn_aborted, hnone] at hdown
    cases hdown

/-- The flag ends the list at the next call, and nothing more is requested. -/
theorem next_aborted (source : Source σ) (c : Cursor) (s : Session σ) (hopen : c.finished = false)
    (hup : s.aborted = true) :
    call source ⟨c, s⟩ .next = (⟨.gave none, []⟩, ⟨c.stop, s⟩) := by
  have hnext : c.next source s = (none, c.stop, s) := (Next.aborted hopen hup).eq
  have hseen : Next (watched source) c (watch s) none c.stop (watch s) := .aborted hopen hup
  simp only [call, hnext, hseen.eq]
  rfl

/-- The first page is asked for at once. -/
theorem start_fetches (source : Source σ) (q : ListQuery) (s : Session σ)
    (hdown : s.aborted = false) :
    (call source ⟨.ofQuery q, s⟩ .start).1.fetches ≠ [] := by
  obtain ⟨a, c', s', hstart, hcall⟩ := call_start source (.ofQuery q) s
  rw [hcall]
  have hturned (url : String) :
      (turn (watched source) q none url (watch s)).session.state.fetches ≠ [] := by
    have hcount := (turn_leads source q none url s hdown).count
    have hpos := turn_urls_pos (watched source) q none url (watch s)
    intro hnil
    rw [hnil, List.length_nil] at hcount
    omega
  cases hstart with
  | idle hidle => simp [Cursor.ofQuery, watch, hdown] at hidle
  | failed url t e _ _ _ _ hturn _ =>
    subst hturn
    exact hturned url
  | begun url t _ _ _ _ hturn _ =>
    subst hturn
    exact hturned url

/-! All calls of a run -/

/-- What is known of the cursor and the session after the calls of a run, the first of which asked
for the first page. -/
structure Traced (source : Source σ) (state : σ) (events : List Event) (l : Life σ) : Prop where
  accounts : Accounts events l.cursor
  pages : l.cursor.pages = (requests events).length
  last : l.cursor.lastDatestamp = Pagination.anchor (given events)
  reached : l.session.state = reach source state ((requests events).map Fetch.url)
  onward : l.cursor.finished = false → l.session.aborted = false →
    ∃ page, (Lifetime.pages events).getLast? = some page ∧
      l.cursor.nextUrl = page.nextToken?.map l.cursor.query.resumptionUrl

theorem anchor_toList (records : List Record) (record? : Option Record) :
    Pagination.anchor (records ++ record?.toList) =
      (record?.bind Record.datestamp).or (Pagination.anchor records) := by
  cases record? with
  | none => simp
  | some record => exact Pagination.anchor_append records record

theorem given_singleton (e : Event) : given [e] = e.record?.toList := by
  cases h : e.record? with
  | none => simp [given, h]
  | some record => simp [given, h]

theorem traced_opening (source : Source σ) (q : ListQuery) (s : Session σ)
    (hdown : s.aborted = false) :
    Traced source s.state [(call source ⟨.ofQuery q, s⟩ .start).1]
      (call source ⟨.ofQuery q, s⟩ .start).2 := by
  have haccounts := (accounts_begun q).step
    (start_change source (.ofQuery q) s (accounts_begun q).settled)
  have hpassage := start_passage source (.ofQuery q) s
  have hfetches := start_fetches source q s hdown
  generalize call source ⟨.ofQuery q, s⟩ .start = seen at *
  obtain ⟨e, l⟩ := seen
  dsimp only at *
  refine {
    accounts := haccounts
    pages := ?_
    last := ?_
    reached := ?_
    onward := ?_ }
  · simpa [Cursor.ofQuery, requests] using hpassage.pages
  · rw [hpassage.last, given_singleton]
    exact (anchor_toList [] e.record?).symm
  · simpa [requests] using hpassage.reached
  · intro hopen hdown'
    rcases hpassage.onward hopen hdown' with ⟨hnone, _⟩ | ⟨page, hpage, hurl⟩
    · exact absurd hnone hfetches
    · refine ⟨page, ?_, hpassage.query ▸ hurl⟩
      simp [Lifetime.pages, hpage]

theorem Traced.step {source : Source σ} {state : σ} {events : List Event} {l l' : Life σ}
    {e : Event} (h : Traced source state events l) (hchange : Change l.cursor e l'.cursor)
    (hpassage : Passage source l e l') : Traced source state (events ++ [e]) l' where
  accounts := h.accounts.step hchange
  pages := by
    rw [hpassage.pages, h.pages]
    simp [requests]
  last := by
    rw [hpassage.last, h.last, given_append, given_singleton, anchor_toList]
  reached := by
    rw [hpassage.reached, h.reached, requests_append, List.map_append, reach_append]
    simp [requests]
  onward := by
    intro hopen hdown
    have hdown₀ := hpassage.down hdown
    have hpages : Lifetime.pages (events ++ [e]) =
        Lifetime.pages events ++ e.fetches.filterMap usable := by
      simp [Lifetime.pages]
    rw [hpages, hpassage.query]
    rcases hpassage.onward hopen hdown with ⟨hnone, hurl⟩ | ⟨page, hpage, hurl⟩
    · rw [hnone, hurl]
      simpa using h.onward (hchange.whole hopen).1 hdown₀
    · refine ⟨page, ?_, hurl⟩
      rw [hpage, List.getLast?_concat]

/-- The first page is there, or no page comes any more. -/
theorem Traced.first_page {source : Source σ} {state : σ} {events : List Event} {l l' : Life σ}
    {e : Event} (h : Traced source state events l) (hopen : l.cursor.finished = false)
    (hpassage : Passage source l e l') :
    (Lifetime.pages (events ++ [e])).head? = (Lifetime.pages events).head? := by
  rw [pages_append]
  cases hup : l.session.aborted with
  | true =>
    have hnone := hpassage.restrained hup
    simp [Lifetime.pages, hnone]
  | false =>
    obtain ⟨page, hpage, _⟩ := h.onward hopen hup
    have hsome : Lifetime.pages events ≠ [] := by
      intro hnil
      rw [hnil] at hpage
      cases hpage
    rw [List.head?_append, Option.or_of_isSome (by simpa using hsome)]

/-- The flag may go up between two calls. -/
theorem Traced.raise {source : Source σ} {state : σ} {events : List Event} {c : Cursor}
    {s : Session σ} (h : Traced source state events ⟨c, s⟩) (up : Bool) :
    Traced source state events ⟨c, { s with aborted := s.aborted || up }⟩ where
  accounts := h.accounts
  pages := h.pages
  last := h.last
  reached := h.reached
  onward := by
    intro hopen hdown
    simp only [Bool.or_eq_false_iff] at hdown
    exact h.onward hopen hdown.1

/-- Where a list ends with the flag down, all records of its pages are handed out, and the last page
has no token. -/
theorem Traced.complete {source : Source σ} {state : σ} {events : List Event} {c : Cursor}
    {s : Session σ} {fetches : List Fetch} {l : Life σ}
    (h : Traced source state events ⟨c, s⟩) (hopen : c.finished = false)
    (hcall : call source ⟨c, s⟩ .next = (⟨.gave none, fetches⟩, l))
    (hdown : l.session.aborted = false) :
    given events = (Lifetime.pages events).flatMap Page.records ∧ fetches = [] ∧
      ∃ page, (Lifetime.pages events).getLast? = some page ∧ page.nextToken? = none := by
  obtain ⟨hqueue, hurl, hfetches⟩ := next_none hcall hopen hdown
  have hpassage := next_passage source c s
  have hdown₀ : s.aborted = false := hpassage.down (by rw [hcall]; exact hdown)
  have hwhole := h.accounts.whole hopen
  obtain ⟨page, hpage, hnext⟩ := h.onward hopen hdown₀
  refine ⟨?_, hfetches, page, hpage, ?_⟩
  · rw [← hwhole, hqueue, List.append_nil]
  · rw [hurl] at hnext
    simpa using hnext.symm

end Harvest.Trail
