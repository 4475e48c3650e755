import Harvest.Proofs.Observation

/-!
The list of a query page by page, without a cursor: where it starts, how it goes on, what a page
without records leads to, and when it ends. The calls of `next` answer with this list record by
record, and they ask for no page before all records of the pages before it are handed out. The
simulation is an induction on the calls: a cursor has the records of one leg in its queue, and the
legs to come depend on what will have been handed out by then.
-/
namespace Harvest.Pagination

open Fetching Observation

variable {σ : Type}

/-- The datestamp of the last of these records that has one. -/
def anchor (given : List Record) : Option String := (given.filterMap Record.datestamp).getLast?

/-- The page at an address, and what to say if it has no records. -/
def pageAt (source : Source σ) (url : String) (state : σ) : Page × Shortfall :=
  Page.ofAnswer (source url state).answer

/-- What becomes of a list at an address: the requests made, and a page with records or an error. -/
structure Found (σ : Type) where
  urls : List String
  outcome : Except Error Page
  state : σ

/-- Looks for the page at `url`, where the records `given` came before. If it has no records there
is one more request, for what changed since the last datestamp given. -/
def find (q : ListQuery) (source : Source σ) (given : List Record) (url : String) (state : σ) :
    Found σ :=
  let (page, shortfall) := pageAt source url state
  let state := (source url state).state
  if !page.records.isEmpty then ⟨[url], .ok page, state⟩
  else
    match anchor given with
    | none => ⟨[url], .error (.extraction url none shortfall), state⟩
    | some datestamp =>
      let again := q.urlSince (some datestamp)
      let (page, shortfall) := pageAt source again state
      let state := (source again state).state
      if !page.records.isEmpty then ⟨[url, again], .ok page, state⟩
      else ⟨[url, again], .error (.extraction again (some datestamp) shortfall), state⟩

/-- A part of a list: the requests it took and the answers it gives. -/
structure Leg where
  urls : List String
  answers : List (Except Error Record)

/-- The list from `url` on, where the records `given` came before, in at most `limit` legs. A page
gives all its records and goes on at its token; without a token, and after an error, it ends. -/
def listing (q : ListQuery) (source : Source σ) : ℕ → List Record → String → σ → List Leg
  | 0, _, _, _ => []
  | limit + 1, given, url, state =>
    let found := find q source given url state
    match found.outcome with
    | .error e => [⟨found.urls, [.error e]⟩]
    | .ok page =>
      ⟨found.urls, page.records.map .ok⟩ ::
        match page.nextToken? with
        | none => []
        | some token =>
          listing q source limit (given ++ page.records) (q.resumptionUrl token) found.state

def answers (legs : List Leg) : List (Except Error Record) := legs.flatMap Leg.answers

def urls (legs : List Leg) : List String := legs.flatMap Leg.urls

/-- The requests for the first `n` answers: a leg is begun when more answers are wanted than the
legs before it give. -/
def urlsFor : ℕ → List Leg → List String
  | 0, _ => []
  | _ + 1, [] => []
  | n + 1, leg :: rest => leg.urls ++ urlsFor (n + 1 - leg.answers.length) rest

@[simp] theorem urlsFor_nil (n : ℕ) : urlsFor n [] = [] := by cases n <;> rfl

/-- The list from an address on, if there is one. -/
def onward (q : ListQuery) (source : Source σ) (limit : ℕ) (given : List Record)
    (url? : Option String) (state : σ) : List Leg :=
  match url? with
  | none => []
  | some url => listing q source limit given url state

theorem listing_error (q : ListQuery) (source : Source σ) (limit : ℕ) (given : List Record)
    (url : String) (state : σ) (e : Error)
    (h : (find q source given url state).outcome = .error e) :
    listing q source (limit + 1) given url state =
      [⟨(find q source given url state).urls, [.error e]⟩] := by
  simp [listing, h]

theorem listing_ok (q : ListQuery) (source : Source σ) (limit : ℕ) (given : List Record)
    (url : String) (state : σ) (page : Page)
    (h : (find q source given url state).outcome = .ok page) :
    listing q source (limit + 1) given url state =
      ⟨(find q source given url state).urls, page.records.map .ok⟩ ::
        onward q source limit (given ++ page.records) (page.nextToken?.map q.resumptionUrl)
          (find q source given url state).state := by
  rw [listing]
  simp only [h]
  cases page.nextToken? with
  | none => rfl
  | some token => rfl

theorem anchor_append (given : List Record) (r : Record) :
    anchor (given ++ [r]) = r.datestamp.or (anchor given) := by
  unfold anchor
  cases hstamp : r.datestamp with
  | none => simp [List.filterMap_append, hstamp]
  | some datestamp => simp [List.filterMap_append, hstamp]

theorem find_page {q : ListQuery} {source : Source σ} {given : List Record} {url : String}
    {state : σ} {page : Page} (hpage : (pageAt source url state).1 = page)
    (hrecords : page.records ≠ []) :
    find q source given url state = ⟨[url], .ok page, (source url state).state⟩ := by
  subst hpage
  simp [find, hrecords]

theorem find_none {q : ListQuery} {source : Source σ} {given : List Record} {url : String}
    {state : σ} (hrecords : (pageAt source url state).1.records = [])
    (hanchor : anchor given = none) :
    find q source given url state =
      ⟨[url], .error (.extraction url none (pageAt source url state).2),
        (source url state).state⟩ := by
  simp [find, hrecords, hanchor]

theorem find_again_page {q : ListQuery} {source : Source σ} {given : List Record} {url : String}
    {state : σ} {datestamp : String} {page : Page}
    (hrecords : (pageAt source url state).1.records = [])
    (hanchor : anchor given = some datestamp)
    (hpage : (pageAt source (q.urlSince (some datestamp)) (source url state).state).1 = page)
    (hrecords₂ : page.records ≠ []) :
    find q source given url state =
      ⟨[url, q.urlSince (some datestamp)], .ok page,
        (source (q.urlSince (some datestamp)) (source url state).state).state⟩ := by
  subst hpage
  simp [find, hrecords, hanchor, hrecords₂]

theorem find_again_none {q : ListQuery} {source : Source σ} {given : List Record} {url : String}
    {state : σ} {datestamp : String} (hrecords : (pageAt source url state).1.records = [])
    (hanchor : anchor given = some datestamp)
    (hrecords₂ :
      (pageAt source (q.urlSince (some datestamp)) (source url state).state).1.records = []) :
    find q source given url state =
      ⟨[url, q.urlSince (some datestamp)],
        .error (.extraction (q.urlSince (some datestamp)) (some datestamp)
          (pageAt source (q.urlSince (some datestamp)) (source url state).state).2),
        (source (q.urlSince (some datestamp)) (source url state).state).state⟩ := by
  simp [find, hrecords, hanchor, hrecords₂]

/-- The ways a search for a page can go. -/
theorem find_cases (q : ListQuery) (source : Source σ) (given : List Record) (url : String)
    (state : σ) :
    let page := pageAt source url state
    let state' := (source url state).state
    (page.1.records ≠ [] ∧ find q source given url state = ⟨[url], .ok page.1, state'⟩) ∨
    (page.1.records = [] ∧ anchor given = none ∧
      find q source given url state = ⟨[url], .error (.extraction url none page.2), state'⟩) ∨
    (page.1.records = [] ∧ ∃ datestamp, anchor given = some datestamp ∧
      let again := q.urlSince (some datestamp)
      let page := pageAt source again state'
      let state'' := (source again state').state
      (page.1.records ≠ [] ∧
        find q source given url state = ⟨[url, again], .ok page.1, state''⟩) ∨
      (page.1.records = [] ∧ find q source given url state =
        ⟨[url, again], .error (.extraction again (some datestamp) page.2), state''⟩)) := by
  intro page state'
  by_cases hpage : page.1.records = []
  · cases hanchor : anchor given with
    | none => exact Or.inr (Or.inl ⟨hpage, rfl, find_none hpage hanchor⟩)
    | some datestamp =>
      refine Or.inr (Or.inr ⟨hpage, datestamp, rfl, ?_⟩)
      intro again page₂ state''
      by_cases hpage₂ : page₂.1.records = []
      · exact Or.inr ⟨hpage₂, find_again_none hpage hanchor hpage₂⟩
      · exact Or.inl ⟨hpage₂, find_again_page hpage hanchor rfl hpage₂⟩
  · exact Or.inl ⟨hpage, find_page rfl hpage⟩

theorem find_outcome_ok (q : ListQuery) (source : Source σ) (given : List Record) (url : String)
    (state : σ) (page : Page) (h : (find q source given url state).outcome = .ok page) :
    page.records ≠ [] := by
  rcases find_cases q source given url state with
    ⟨hpage, heq⟩ | ⟨_, _, heq⟩ | ⟨_, _, _, ⟨hpage, heq⟩ | ⟨_, heq⟩⟩
  · rw [heq] at h
    exact Except.ok.inj h ▸ hpage
  · simp [heq] at h
  · rw [heq] at h
    exact Except.ok.inj h ▸ hpage
  · simp [heq] at h

theorem request_quiet (source : Source σ) (hquiet : Quiet source) (url : String)
    (last : Option String) (state : σ) :
    request source url last ⟨state, false⟩ =
      ⟨[url], some (if (pageAt source url state).1.records.isEmpty then
          .error (.extraction url last (pageAt source url state).2)
        else .ok (pageAt source url state).1), ⟨(source url state).state, false⟩⟩ := by
  have hdown := hquiet url state
  cases hpage : (pageAt source url state).1.records.isEmpty with
  | true =>
    unfold pageAt at hpage ⊢
    simp [request, Session.request, hdown, hpage]
  | false =>
    unfold pageAt at hpage ⊢
    simp [request, Session.request, hdown, hpage]

/-- On a source that never raises the flag, a turn is the search for a page. -/
theorem turn_eq_find (q : ListQuery) (source : Source σ) (hquiet : Quiet source)
    (given : List Record) (url : String) (state : σ) :
    turn source q (anchor given) url ⟨state, false⟩ =
      let found := find q source given url state
      ⟨found.urls, some found.outcome, ⟨found.state, false⟩⟩ := by
  rcases find_cases q source given url state with
    ⟨hpage, heq⟩ | ⟨hpage, hanchor, heq⟩ | ⟨hpage, datestamp, hanchor, ⟨hpage₂, heq⟩ | ⟨hpage₂, heq⟩⟩
  · simp [turn, request_quiet source hquiet, hpage, heq]
  · simp [turn, request_quiet source hquiet, hpage, hanchor, heq]
  · simp [turn, request_quiet source hquiet, hpage, hanchor, hpage₂, heq]
  · simp [turn, request_quiet source hquiet, hpage, hanchor, hpage₂, heq]

/-- The search on a source that books its requests. -/
theorem find_recorded (q : ListQuery) (source : Source σ) (given : List Record) (url : String)
    (log : List String) (state : σ) :
    find q source.recorded given url (log, state) =
      let found := find q source given url state
      ⟨found.urls, found.outcome, (found.urls.reverse ++ log, found.state)⟩ := by
  have hpageAt (url : String) (log : List String) (state : σ) :
      pageAt source.recorded url (log, state) = pageAt source url state := rfl
  have hstate (url : String) (log : List String) (state : σ) :
      (source.recorded url (log, state)).state = (url :: log, (source url state).state) := rfl
  rcases find_cases q source given url state with
    ⟨hpage, heq⟩ | ⟨hpage, hanchor, heq⟩ | ⟨hpage, datestamp, hanchor, ⟨hpage₂, heq⟩ | ⟨hpage₂, heq⟩⟩
  · rw [heq]
    simp [find, hpageAt, hstate, hpage]
  · rw [heq]
    simp [find, hpageAt, hstate, hpage, hanchor]
  · rw [heq]
    simp [find, hpageAt, hstate, hpage, hanchor, hpage₂]
  · rw [heq]
    simp [find, hpageAt, hstate, hpage, hanchor, hpage₂]

/-- A turn of a cursor is one search, and the books grow by its requests. -/
theorem turn_recorded (q : ListQuery) (source : Source σ) (hquiet : Quiet source)
    (given : List Record) (url : String) (log : List String) (state : σ) :
    turn source.recorded q (anchor given) url ⟨(log, state), false⟩ =
      ⟨(find q source given url state).urls, some (find q source given url state).outcome,
        ⟨((find q source given url state).urls.reverse ++ log,
          (find q source given url state).state), false⟩⟩ := by
  rw [turn_eq_find q source.recorded (fun url booked => hquiet url booked.2), find_recorded]

theorem drain_finished (source : Source σ) (n : ℕ) (c : Cursor) (s : Session σ)
    (hdone : c.finished = true) : c.drain source n s = ([], c, s) := by
  cases n with
  | zero => rfl
  | succ n => simp [Cursor.drain, (Next.finished hdone : Next source c s none c s).eq]

theorem drain_succ_none {source : Source σ} {c c' : Cursor} {s s' : Session σ} (n : ℕ)
    (h : Next source c s none c' s') : c.drain source (n + 1) s = ([], c', s') := by
  simp only [Cursor.drain, h.eq]

theorem drain_succ_some {source : Source σ} {c c' : Cursor} {s s' : Session σ}
    {a : Except Error Record} (n : ℕ) (h : Next source c s (some a) c' s') :
    c.drain source (n + 1) s =
      (a :: (c'.drain source n s').1, (c'.drain source n s').2.1, (c'.drain source n s').2.2) := by
  simp only [Cursor.drain, h.eq]

/-- From any point of a list on: a cursor hands out what is queued, and then the legs to come. -/
theorem drain_eq_onward (q : ListQuery) (source : Source σ) (hquiet : Quiet source) (n : ℕ) :
    ∀ (limit : ℕ) (c : Cursor) (given : List Record) (log : List String) (state : σ),
      n ≤ limit → c.query = q → c.finished = false → c.lastDatestamp = anchor given →
      let run := c.drain source.recorded n ⟨(log, state), false⟩
      let legs := onward q source limit (given ++ c.queue) c.nextUrl state
      run.1 = (c.queue.map Except.ok ++ answers legs).take n ∧
        run.2.2.state.1 = (urlsFor (n - c.queue.length) legs).reverse ++ log := by
  induction n with
  | zero =>
    intro limit c given log state _ _ _ _
    simp [Cursor.drain, urlsFor]
  | succ n ih =>
    intro limit c given log state hlimit hquery hopen hlast
    obtain ⟨limit, rfl⟩ : ∃ m, limit = m + 1 := ⟨limit - 1, by omega⟩
    obtain ⟨a, c', s', hnext⟩ := exists_next source.recorded c ⟨(log, state), false⟩
    cases hnext with
    | finished hdone => simp [hdone] at hopen
    | aborted _ hup => simp at hup
    | queued r rest hopen' hdown hqueue =>
      have hnext : Next source.recorded c ⟨(log, state), false⟩ (some (.ok r)) (hand r rest c) _ :=
        .queued r rest hopen hdown hqueue
      have hrun := drain_succ_some n hnext
      have hgiven : (given ++ [r]) ++ (hand r rest c).queue = given ++ c.queue := by
        simp [hand, hqueue]
      obtain ⟨hanswers, hlog⟩ := ih (limit + 1) (hand r rest c) (given ++ [r]) log state (by omega)
        hquery hopen (by rw [anchor_append, ← hlast]; rfl)
      rw [hgiven] at hanswers hlog
      have hcount : n + 1 - c.queue.length = n - (hand r rest c).queue.length := by
        simp [hqueue, hand]
      have htake (l : List (Except Error Record)) :
          (c.queue.map Except.ok ++ l).take (n + 1) =
            .ok r :: ((hand r rest c).queue.map Except.ok ++ l).take n := by
        simp [hqueue, hand]
      refine ⟨(congrArg Prod.fst hrun).trans ?_, (congrArg (·.2.2.state.1) hrun).trans ?_⟩
      · rw [htake]
        exact congrArg (List.cons _) hanswers
      · rw [hcount]
        exact hlog
    | exhausted hopen' hdown hqueue hurl =>
      rw [drain_succ_none n (Next.exhausted hopen hdown hqueue hurl)]
      simp [hqueue, hurl, onward, answers]
    | abandoned url t hopen' hdown hqueue hurl hturn hnone =>
      rw [hlast, turn_recorded _ _ hquiet] at hturn
      simp [← hturn] at hnone
    | failed url t e hopen' hdown hqueue hurl hturn herror =>
      have hrun := drain_succ_some n
        (Next.failed url t e hopen hdown hqueue hurl hturn herror)
      rw [drain_finished _ n _ _ rfl] at hrun
      rw [hlast, turn_recorded _ _ hquiet, hquery] at hturn
      subst hturn
      have hlegs := listing_error q source limit given url state e (Option.some.inj herror)
      refine ⟨(congrArg Prod.fst hrun).trans ?_, (congrArg (·.2.2.state.1) hrun).trans ?_⟩
      · simp [hqueue, hurl, onward, hlegs, answers]
      · simp [hqueue, hurl, onward, hlegs, urlsFor]
    | turned url t page r rest hopen' hdown hqueue hurl hturn hpage hrecords =>
      have hrun := drain_succ_some n
        (Next.turned url t page r rest hopen hdown hqueue hurl hturn hpage hrecords)
      rw [hlast, turn_recorded _ _ hquiet, hquery] at hturn
      subst hturn
      have hlegs := listing_ok q source limit given url state page (Option.some.inj hpage)
      generalize hfound : find q source given url state = found at *
      generalize hd : hand r rest ((asked _ c).accept page) = d at hrun
      have hqueue' : d.queue = rest := by simp [← hd]
      have hurl' : d.nextUrl = page.nextToken?.map q.resumptionUrl := by simp [← hd, hquery]
      obtain ⟨hanswers, hlog⟩ := ih limit d (given ++ [r]) (found.urls.reverse ++ log) found.state
        (by omega) (by simp [← hd, hquery]) (by simp [← hd, hopen])
        (by simp [← hd, anchor_append, hlast])
      have hgiven : given ++ [r] ++ rest = given ++ page.records := by simp [hrecords]
      rw [hqueue', hurl', hgiven] at hanswers hlog
      have honward : onward q source (limit + 1) (given ++ c.queue) c.nextUrl state =
          listing q source (limit + 1) given url state := by
        rw [hqueue, hurl, List.append_nil, onward]
      refine ⟨(congrArg Prod.fst hrun).trans ?_, (congrArg (·.2.2.state.1) hrun).trans ?_⟩
      · rw [honward, hlegs, hqueue, hrecords]
        simpa [answers, hrecords] using hanswers
      · rw [honward, hlegs, hqueue, hrecords]
        simpa [urlsFor, hrecords] using hlog

/-- A new cursor answers with the list of its query, and asks for no more than that takes. -/
theorem drain_eq_listing (q : ListQuery) (source : Source σ) (hquiet : Quiet source) (state : σ)
    (n limit : ℕ) (hn : n ≤ limit) :
    let legs := listing q source limit [] q.url state
    ((Cursor.ofQuery q).drain source n ⟨state, false⟩).1 = (answers legs).take n ∧
      requested source n (Cursor.ofQuery q) ⟨state, false⟩ = urlsFor n legs := by
  obtain ⟨hanswers, hlog⟩ := drain_eq_onward q source hquiet n limit (Cursor.ofQuery q) [] [] state
    hn rfl rfl rfl
  obtain ⟨hsame, _, _⟩ := drain_alike (recorded_alike source) n (Cursor.ofQuery q)
    (s := ⟨([], state), false⟩) (t := ⟨state, false⟩) ⟨rfl, rfl⟩
  refine ⟨hsame.symm.trans ?_, ?_⟩
  · simpa [Cursor.ofQuery, onward] using hanswers
  · rw [requested, hlog]
    simp [Cursor.ofQuery, onward]

/-- Every leg gives an answer. -/
theorem answers_ne_nil (q : ListQuery) (source : Source σ) (limit : ℕ) (given : List Record)
    (url : String) (state : σ) :
    ∀ leg ∈ listing q source limit given url state, leg.answers ≠ [] := by
  induction limit generalizing given url state with
  | zero => simp [listing]
  | succ limit ih =>
    intro leg hleg
    cases hout : (find q source given url state).outcome with
    | error e =>
      rw [listing_error _ _ _ _ _ _ _ hout, List.mem_singleton] at hleg
      simp [hleg]
    | ok page =>
      rw [listing_ok _ _ _ _ _ _ _ hout, List.mem_cons] at hleg
      rcases hleg with rfl | hleg
      · simpa using find_outcome_ok _ _ _ _ _ page hout
      · cases htoken : page.nextToken? with
        | none => simp [htoken, onward] at hleg
        | some token =>
          rw [htoken] at hleg
          exact ih _ _ _ leg hleg

/-- The requests for `n` answers more than some legs give. -/
theorem urlsFor_append (before after : List Leg) (n : ℕ)
    (h : ∀ leg ∈ before, leg.answers ≠ []) :
    urlsFor ((answers before).length + n) (before ++ after) = urls before ++ urlsFor n after := by
  induction before with
  | nil => simp [answers, urls]
  | cons leg before ih =>
    have hleg := List.length_pos_iff.mpr (h leg List.mem_cons_self)
    have hrest := ih fun leg' hleg' => h leg' (List.mem_cons_of_mem _ hleg')
    obtain ⟨m, hm⟩ : ∃ m, leg.answers.length = m + 1 := ⟨leg.answers.length - 1, by omega⟩
    have hcount : (answers (leg :: before)).length + n =
        (m + (answers before).length + n) + 1 := by
      simp only [answers, List.flatMap_cons, List.length_append, hm]
      omega
    rw [hcount, List.cons_append, urlsFor, hm,
      show m + (answers before).length + n + 1 - (m + 1) = (answers before).length + n by omega,
      hrest]
    simp [urls]

/-- When more answers are wanted than there are, all requests are made. -/
theorem urlsFor_eq_urls (legs : List Leg) (n : ℕ) (h : (answers legs).length < n) :
    urlsFor n legs = urls legs := by
  induction legs generalizing n with
  | nil => simp [urls]
  | cons leg rest ih =>
    obtain ⟨n, rfl⟩ : ∃ m, n = m + 1 := ⟨n - 1, by omega⟩
    simp only [answers, List.flatMap_cons, List.length_append] at h
    have hrest : (answers rest).length < n + 1 - leg.answers.length := by
      unfold answers
      omega
    rw [urlsFor, ih _ hrest]
    rfl

/-- A list that has fewer answers than legs allowed has come to its end. -/
theorem listing_ended (q : ListQuery) (source : Source σ) (limit m : ℕ) (given : List Record)
    (url : String) (state : σ)
    (h : (answers (listing q source limit given url state)).length < limit) (hm : limit ≤ m) :
    listing q source m given url state = listing q source limit given url state := by
  induction limit generalizing m given url state with
  | zero => omega
  | succ limit ih =>
    obtain ⟨m, rfl⟩ : ∃ k, m = k + 1 := ⟨m - 1, by omega⟩
    cases hout : (find q source given url state).outcome with
    | error e => rw [listing_error _ _ _ _ _ _ _ hout, listing_error _ _ _ _ _ _ _ hout]
    | ok page =>
      rw [listing_ok _ _ _ _ _ _ _ hout] at h ⊢
      rw [listing_ok _ _ _ _ _ _ _ hout]
      cases htoken : page.nextToken? with
      | none => rfl
      | some token =>
        have hrecords := List.length_pos_iff.mpr (find_outcome_ok _ _ _ _ _ page hout)
        simp only [htoken, Option.map_some, onward, answers, List.flatMap_cons,
          List.length_append, List.length_map] at h ⊢
        rw [ih m _ _ _ (by unfold answers; omega) (by omega)]

/-- The answers of a cursor, call by call, are those of the list of its query page by page, and so
are the requests made by then. Once a call has answered that there is nothing more, all of the list
has been answered and no leg would follow. -/
theorem answers_page_by_page (q : ListQuery) (source : Source σ) (hquiet : Quiet source)
    (state : σ) (n : ℕ) :
    let given := ((Cursor.ofQuery q).drain source n ⟨state, false⟩).1
    let requests := requested source n (Cursor.ofQuery q) ⟨state, false⟩
    let legs := listing q source n [] q.url state
    given = (answers legs).take n ∧ requests = urlsFor n legs ∧
      (given.length < n → given = answers legs ∧ requests = urls legs ∧
        ∀ m, n ≤ m → listing q source m [] q.url state = legs) := by
  intro given requests legs
  obtain ⟨hanswers, hrequests⟩ := drain_eq_listing q source hquiet state n n (Nat.le_refl n)
  refine ⟨hanswers, hrequests, ?_⟩
  intro hended
  have htake : given.length = min n (answers legs).length :=
    (congrArg List.length hanswers).trans List.length_take
  have hlength : (answers legs).length < n := by omega
  refine ⟨hanswers.trans (List.take_of_length_le (Nat.le_of_lt hlength)), ?_, ?_⟩
  · exact hrequests.trans (urlsFor_eq_urls legs n hlength)
  · intro m hm
    exact listing_ended q source n m [] q.url state hlength hm

/-! A list of two records whose token is refused -/

def early : Record := ⟨{ identifier := "a", datestamp := some "1" }, none⟩

def late : Record := ⟨{ identifier := "b", datestamp := some "2" }, none⟩

def earlyBody : String :=
  "<r><ListRecords><record><header><identifier>a</identifier><datestamp>1</datestamp></header>" ++
    "</record><resumptionToken>t</resumptionToken></ListRecords></r>"

def bothBody : String :=
  "<r><ListRecords><record><header><identifier>a</identifier><datestamp>1</datestamp></header>" ++
    "</record><record><header><identifier>b</identifier><datestamp>2</datestamp></header>" ++
    "</record></ListRecords></r>"

def earlyPage : Page := { records := [early], token := some ⟨"t", none⟩ }

def bothPage : Page := { records := [early, late] }

set_option maxRecDepth 20000 in
theorem ofAnswer_earlyBody : Page.ofAnswer (.ok earlyBody) = (earlyPage, .noRecords) := by
  rfl

set_option maxRecDepth 20000 in
theorem ofAnswer_bothBody : Page.ofAnswer (.ok bothBody) = (bothPage, .noRecords) := by
  rfl

theorem nextToken_earlyPage : earlyPage.nextToken? = some "t" := by decide

theorem nextToken_bothPage : bothPage.nextToken? = none := rfl

/-- Answers with what was written down for each request in turn, whatever is asked for. -/
def scripted : Source (List (Except Error String)) := fun _ rest =>
  { answer := rest.headD (.error .malformedXml), state := rest.tail }

def refusal : List (Except Error String) := [.ok earlyBody, .error .malformedXml, .ok bothBody]

/-- Where the token of the first page brings no records, the list goes on since its datestamp. -/
theorem listing_again (q : ListQuery) (source : Source σ) (state : σ)
    (hfirst : (pageAt source q.url state).1 = earlyPage)
    (htoken : (pageAt source (q.resumptionUrl "t") (source q.url state).state).1.records = [])
    (hagain : (pageAt source (q.urlSince (some "1"))
      (source (q.resumptionUrl "t") (source q.url state).state).state).1 = bothPage) :
    listing q source 4 [] q.url state =
      [⟨[q.url], [.ok early]⟩,
        ⟨[q.resumptionUrl "t", q.urlSince (some "1")], [.ok early, .ok late]⟩] := by
  have hleg : find q source [] q.url state = _ := find_page hfirst (List.cons_ne_nil _ _)
  have hleg₂ : find q source [early] (q.resumptionUrl "t") (source q.url state).state = _ :=
    find_again_page htoken rfl hagain (List.cons_ne_nil _ _)
  rw [listing_ok _ _ _ _ _ _ earlyPage (by rw [hleg]), hleg, nextToken_earlyPage]
  simp only [Option.map_some, onward]
  rw [listing_ok _ _ _ _ _ _ bothPage (by rw [List.nil_append]; exact congrArg _ hleg₂)]
  simp only [List.nil_append, show earlyPage.records = [early] from rfl, hleg₂,
    nextToken_bothPage]
  rfl

/-- The first record is given twice: it stands on the page with the refused token and on the page
since its datestamp. -/
theorem answers_after_refused_token :
    let q : ListQuery := { hostUrl := "h", metadataPrefix := "p" }
    Quiet scripted ∧
      ((Cursor.ofQuery q).drain scripted 4 ⟨refusal, false⟩).1 =
        [.ok early, .ok early, .ok late] ∧
      requested scripted 4 (Cursor.ofQuery q) ⟨refusal, false⟩ =
        [q.url, q.resumptionUrl "t", q.urlSince (some "1")] := by
  intro q
  have hquiet : Quiet scripted := fun _ _ => rfl
  obtain ⟨hgiven, hrequests, _⟩ := answers_page_by_page q scripted hquiet refusal 4
  have hlegs := listing_again q scripted refusal (congrArg Prod.fst ofAnswer_earlyBody) rfl
    (congrArg Prod.fst ofAnswer_bothBody)
  rw [hlegs] at hgiven hrequests
  refine ⟨hquiet, hgiven.trans rfl, hrequests.trans rfl⟩

end Harvest.Pagination
