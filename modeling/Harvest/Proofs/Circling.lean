import Harvest.Proofs.Pagination
import Mathlib.Data.Finite.Prod
import Mathlib.Data.Set.Finite.Lattice
import Mathlib.Order.Preorder.Finite

/-!
Lists that lead back to themselves. Nothing keeps a cursor from asking for the same page again, and
where a source always answers an address the same it then goes round for ever. That is the only way
not to come to an end when few pages have records: what a cursor does depends on the address it asks
for and the last datestamp alone, and of both there are finitely many.
-/
namespace Harvest.Circling

open Fetching Observation Pagination

variable {σ : Type}

/-- The cursor and its session after so many calls of `next`. -/
def after (source : Source σ) (n : ℕ) (c : Cursor) (s : Session σ) : Cursor × Session σ :=
  (fun l => (l.1.next source l.2).2)^[n] (c, s)

/-- The page a call has to ask for, if no record is there to hand out: its address, and the
datestamp to start again from. -/
def due (c : Cursor) : Option (String × Option String) :=
  match c.finished, c.queue, c.nextUrl with
  | false, [], some url => some (url, c.lastDatestamp)
  | _, _, _ => none

theorem due_eq_some_iff (c : Cursor) (url : String) (last : Option String) :
    due c = some (url, last) ↔
      c.finished = false ∧ c.queue = [] ∧ c.nextUrl = some url ∧ c.lastDatestamp = last := by
  unfold due
  split
  · rename_i hopen hqueue hurl
    simp [hopen, hqueue, hurl]
  · rename_i hnone
    constructor
    · intro h
      cases h
    · rintro ⟨hopen, hqueue, hurl, _⟩
      exact absurd hurl (hnone url hopen hqueue)

theorem after_succ (source : Source σ) (n : ℕ) (c : Cursor) (s : Session σ) :
    after source (n + 1) c s =
      ((after source n c s).1.next source (after source n c s).2).2 :=
  Function.iterate_succ_apply' _ _ _

theorem after_add (source : Source σ) (n m : ℕ) (c : Cursor) (s : Session σ) :
    after source (n + m) c s =
      after source m (after source n c s).1 (after source n c s).2 := by
  unfold after
  rw [Nat.add_comm, Function.iterate_add_apply]

/-! The end -/

theorem next_finished (source : Source σ) (c : Cursor) (s : Session σ)
    (hdone : c.finished = true) : c.next source s = (none, c, s) :=
  (Next.finished hdone).eq

/-- Nothing is answered exactly when the cursor is finished by then. -/
theorem next_none_finished (source : Source σ) (c : Cursor) (s : Session σ)
    (h : (c.next source s).1 = none) : (c.next source s).2.1.finished = true := by
  obtain ⟨a, c', s', hnext⟩ := exists_next source c s
  rw [hnext.eq] at h ⊢
  cases hnext with
  | finished hdone => exact hdone
  | aborted hopen hup => rfl
  | queued r rest hopen hdown hqueue => cases h
  | exhausted hopen hdown hqueue hurl => rfl
  | abandoned url t hopen hdown hqueue hurl hturn hnone => rfl
  | failed url t e hopen hdown hqueue hurl hturn herror => cases h
  | turned url t page r rest hopen hdown hqueue hurl hturn hpage hrecords => cases h

theorem after_finished_mono (source : Source σ) {n m : ℕ} (hnm : n ≤ m) (c : Cursor)
    (s : Session σ) (hdone : (after source n c s).1.finished = true) :
    (after source m c s).1.finished = true := by
  induction hnm with
  | refl => exact hdone
  | step _ ih =>
    rw [after_succ, next_finished source _ _ ih]
    exact ih

/-- The answers come to an end exactly when the cursor is finished after some call. -/
theorem ends_iff_finished (source : Source σ) (c : Cursor) (s : Session σ) :
    (∃ n, (c.drain source n s).1.length < n) ↔ ∃ n, (after source n c s).1.finished = true := by
  constructor
  · rintro ⟨n, hn⟩
    induction n generalizing c s with
    | zero => omega
    | succ n ih =>
      rcases hnext : c.next source s with ⟨_ | a, c', s'⟩
      · refine ⟨1, ?_⟩
        have hdone := next_none_finished source c s (by rw [hnext])
        rw [hnext] at hdone
        simpa [after, hnext] using hdone
      · simp only [Cursor.drain, hnext, List.length_cons, Nat.add_lt_add_iff_right] at hn
        obtain ⟨m, hm⟩ := ih c' s' hn
        refine ⟨1 + m, ?_⟩
        rw [after_add]
        simpa [after, hnext] using hm
  · rintro ⟨n, hn⟩
    refine ⟨n + 1, ?_⟩
    induction n generalizing c s with
    | zero => simp [Cursor.drain, next_finished source c s hn]
    | succ n ih =>
      rcases hnext : c.next source s with ⟨_ | a, c', s'⟩
      · simp [Cursor.drain, hnext]
      · have hrest := ih c' s' (by
          rw [Nat.add_comm, after_add] at hn
          simpa [after, hnext] using hn)
        rw [Cursor.drain]
        simp only [hnext, List.length_cons]
        omega

/-! Where the flag stays down -/

theorem request_calm (source : Source σ) (hquiet : Quiet source) (url : String)
    (last : Option String) (s : Session σ) (hdown : s.aborted = false) :
    (request source url last s).session.aborted = false := by
  simp [request, Session.request, hdown, hquiet url s.state]

theorem turn_quiet (source : Source σ) (hquiet : Quiet source) (q : ListQuery)
    (last : Option String) (url : String) (s : Session σ) (hdown : s.aborted = false) :
    (turn source q last url s).session.aborted = false := by
  have hfirst := request_calm source hquiet url none s hdown
  rcases turn_cases source q last url s with heq | ⟨e, datestamp, _, _, heq⟩
  · rw [heq]
    exact hfirst
  · rw [heq]
    exact request_calm source hquiet _ (some datestamp) _ hfirst

theorem next_quiet (source : Source σ) (hquiet : Quiet source) (c : Cursor) (s : Session σ)
    (hdown : s.aborted = false) : (c.next source s).2.2.aborted = false := by
  obtain ⟨a, c', s', hnext⟩ := exists_next source c s
  rw [hnext.eq]
  cases hnext with
  | finished hdone => exact hdown
  | aborted hopen hup => exact hdown
  | queued r rest hopen _ hqueue => exact hdown
  | exhausted hopen _ hqueue hurl => exact hdown
  | abandoned url t hopen _ hqueue hurl hturn hnone =>
    exact hturn ▸ turn_quiet source hquiet _ _ _ s hdown
  | failed url t e hopen _ hqueue hurl hturn herror =>
    exact hturn ▸ turn_quiet source hquiet _ _ _ s hdown
  | turned url t page r rest hopen _ hqueue hurl hturn hpage hrecords =>
    exact hturn ▸ turn_quiet source hquiet _ _ _ s hdown

/-! Sources that answer an address always the same -/

variable (answers : String → Except Error String) (q : ListQuery)

def pageOf (url : String) : Page := (Page.ofAnswer (answers url)).1

/-- The addresses of pages with records. -/
def fruitful : Set String := {url | (pageOf answers url).records ≠ []}

/-- The session of such a source, which nothing changes. -/
def calm : Session Unit := ⟨(), false⟩

/-- The cursor of a query after so many calls. -/
def reached (n : ℕ) : Cursor := (after (.fixed answers) n (.ofQuery q) calm).1

theorem next_calm (c : Cursor) : (c.next (.fixed answers) calm).2.2 = calm := by
  have hdown := next_quiet (.fixed answers) (fun _ _ => rfl) c calm rfl
  rcases hs : (c.next (.fixed answers) calm).2.2 with ⟨state, aborted⟩
  rw [hs] at hdown
  exact congrArg _ hdown

theorem after_calm (n : ℕ) (c : Cursor) : (after (.fixed answers) n c calm).2 = calm := by
  induction n with
  | zero => rfl
  | succ n ih => rw [after_succ, ih, next_calm]

theorem reached_succ (n : ℕ) :
    reached answers q (n + 1) = ((reached answers q n).next (.fixed answers) calm).2.1 := by
  unfold reached
  rw [after_succ, after_calm]

theorem request_fruitful (last : Option String) (url : String) (s : Session Unit) (page : Page)
    (h : (request (.fixed answers) url last s).outcome = some (.ok page)) :
    url ∈ fruitful answers ∧ pageOf answers url = page := by
  have hrecords := request_outcome_ok _ _ _ _ page h
  rcases request_cases (.fixed answers) url last s with ⟨_, heq⟩ | ⟨_, _, heq⟩ | ⟨_, _, heq⟩
  · simp [heq] at h
  · simp [heq] at h
  · rw [heq] at h
    have hpage : pageOf answers url = page := Except.ok.inj (Option.some.inj h)
    refine ⟨?_, hpage⟩
    unfold fruitful
    simpa [hpage] using hrecords

/-- The page of a turn stands at an address with records. -/
theorem turn_fruitful (last : Option String) (url : String) (s : Session Unit) (page : Page)
    (h : (turn (.fixed answers) q last url s).outcome = some (.ok page)) :
    ∃ url' ∈ fruitful answers, pageOf answers url' = page := by
  rcases turn_cases (.fixed answers) q last url s with heq | ⟨e, datestamp, _, _, heq⟩
  · rw [heq] at h
    exact ⟨_, request_fruitful answers _ _ _ page h⟩
  · rw [heq] at h
    exact ⟨_, request_fruitful answers _ _ _ page h⟩

/-- No page stands where nothing is answered. -/
theorem fruitful_subset (addresses : Set String)
    (h : ∀ url, url ∉ addresses → answers url = .error .malformedXml) :
    fruitful answers ⊆ addresses := by
  intro url hurl
  by_contra hother
  apply hurl
  rw [pageOf, h url hother]
  rfl

/-! Everything a cursor can come to -/

/-- The records of all these pages. -/
def known : Set Record := {r | ∃ url ∈ fruitful answers, r ∈ (pageOf answers url).records}

/-- The addresses where a page can be due. -/
def places : Set String :=
  insert q.url ((fun url => q.resumptionUrl ((pageOf answers url).nextToken?.getD "")) ''
    fruitful answers)

def lasts : Set (Option String) := insert none (Record.datestamp '' known answers)

theorem known_finite (hfew : (fruitful answers).Finite) : (known answers).Finite := by
  have hunion : known answers =
      ⋃ url ∈ fruitful answers, {r | r ∈ (pageOf answers url).records} := by
    ext r
    simp [known]
  rw [hunion]
  exact hfew.biUnion fun url _ => List.finite_toSet _

theorem dues_finite (hfew : (fruitful answers).Finite) :
    (some '' (places answers q ×ˢ lasts answers)).Finite := by
  have hplaces : (places answers q).Finite := (hfew.image _).insert _
  have hlasts : (lasts answers).Finite := ((known_finite answers hfew).image _).insert _
  exact (hplaces.prod hlasts).image _

/-- What a cursor knows comes from pages with records. -/
structure Within (c : Cursor) : Prop where
  query : c.query = q
  place : ∀ url, c.nextUrl = some url → url ∈ places answers q
  last : c.lastDatestamp ∈ lasts answers
  queue : ∀ r ∈ c.queue, r ∈ known answers

theorem lasts_hand {last : Option String} {r : Record} (hlast : last ∈ lasts answers)
    (hr : r ∈ known answers) : r.datestamp.or last ∈ lasts answers := by
  cases hd : r.datestamp with
  | none => simpa using hlast
  | some datestamp => exact Set.mem_insert_of_mem _ ⟨r, hr, by simpa using hd⟩

variable {answers q} in
theorem Within.next {c : Cursor} (h : Within answers q c) (s : Session Unit) :
    Within answers q (c.next (.fixed answers) s).2.1 := by
  obtain ⟨a, c', s', hnext⟩ := exists_next (.fixed answers) c s
  rw [hnext.eq]
  cases hnext with
  | finished hdone => exact h
  | aborted hopen hup => exact ⟨h.query, h.place, h.last, fun r hr => absurd hr List.not_mem_nil⟩
  | queued r rest hopen hdown hqueue =>
    have hmem := h.queue
    rw [hqueue] at hmem
    exact ⟨h.query, h.place, lasts_hand _ h.last (hmem r List.mem_cons_self),
      fun r' hr' => hmem r' (List.mem_cons_of_mem _ hr')⟩
  | exhausted hopen hdown hqueue hurl => exact ⟨h.query, h.place, h.last, h.queue⟩
  | abandoned url t hopen hdown hqueue hurl hturn hnone =>
    exact ⟨h.query, fun url hurl => absurd hurl (by simp [Cursor.stop, asked]), h.last,
      fun r hr => absurd hr List.not_mem_nil⟩
  | failed url t e hopen hdown hqueue hurl hturn herror =>
    exact ⟨h.query, fun url hurl => absurd hurl (by simp [asked]), h.last, h.queue⟩
  | turned url t page r rest hopen hdown hqueue hurl hturn hpage hrecords =>
    rw [← hturn] at hpage
    obtain ⟨url', hfruitful, rfl⟩ := turn_fruitful _ _ _ _ _ _ hpage
    have hmem : ∀ r' ∈ r :: rest, r' ∈ known answers := by
      intro r' hr'
      exact ⟨url', hfruitful, hrecords ▸ hr'⟩
    refine ⟨?_, ?_, ?_, ?_⟩
    · simpa using h.query
    · intro next hnext
      cases htoken : (pageOf answers url').nextToken? with
      | none => simp [htoken] at hnext
      | some token =>
        simp only [hand_nextUrl, accept_nextUrl, htoken, Option.map_some, asked_query, h.query,
          Option.some.injEq] at hnext
        refine Set.mem_insert_of_mem _ ⟨url', hfruitful, ?_⟩
        simp [htoken, hnext]
    · simpa using lasts_hand _ h.last (hmem r List.mem_cons_self)
    · intro r' hr'
      exact hmem r' (List.mem_cons_of_mem _ (by simpa using hr'))

theorem reached_within (n : ℕ) : Within answers q (reached answers q n) := by
  induction n with
  | zero =>
    refine ⟨rfl, ?_, Set.mem_insert _ _, fun r hr => absurd hr List.not_mem_nil⟩
    intro url hurl
    exact Set.mem_insert_iff.mpr (Or.inl (Option.some.inj hurl).symm)
  | succ n ih =>
    rw [reached_succ]
    exact ih.next _

/-- As long as a cursor is not finished, a page falls due again and again: each call before takes a
record out of the queue. -/
theorem exists_due (hopen : ∀ n, (reached answers q n).finished = false) (n : ℕ) :
    ∃ m, n ≤ m ∧ ∃ place, due (reached answers q m) = some place := by
  generalize hlength : (reached answers q n).queue.length = length
  induction length generalizing n with
  | zero =>
    have hqueue : (reached answers q n).queue = [] := List.eq_nil_of_length_eq_zero hlength
    cases hurl : (reached answers q n).nextUrl with
    | none =>
      exfalso
      have hlater := hopen (n + 1)
      rw [reached_succ, (Next.exhausted (hopen n) rfl hqueue hurl).eq] at hlater
      cases hlater
    | some url =>
      exact ⟨n, Nat.le_refl n, _, (due_eq_some_iff _ _ _).mpr ⟨hopen n, hqueue, hurl, rfl⟩⟩
  | succ length ih =>
    obtain ⟨r, rest, hqueue⟩ := List.exists_cons_of_length_eq_add_one hlength
    have hstep : (reached answers q (n + 1)).queue = rest := by
      rw [reached_succ, (Next.queued r rest (hopen n) rfl hqueue).eq]
      rfl
    have hrest : (reached answers q (n + 1)).queue.length = length := by
      rw [hqueue, List.length_cons] at hlength
      rw [hstep]
      omega
    obtain ⟨m, hm, hdue⟩ := ih (n + 1) hrest
    exact ⟨m, by omega, hdue⟩

/-! One position again -/

/-- Two cursors that will ask and answer alike, whatever they did before. -/
structure Same (c d : Cursor) : Prop where
  query : c.query = d.query
  nextUrl : c.nextUrl = d.nextUrl
  lastDatestamp : c.lastDatestamp = d.lastDatestamp
  queue : c.queue = d.queue
  finished : c.finished = d.finished

theorem Same.next {c d : Cursor} (h : Same c d) (source : Source σ) (s : Session σ) :
    Same (c.next source s).2.1 (d.next source s).2.1 := by
  obtain ⟨a, c', s', hnext⟩ := exists_next source c s
  rw [hnext.eq]
  cases hnext with
  | finished hdone =>
    rw [next_finished source d s (h.finished ▸ hdone)]
    exact h
  | aborted hopen hup =>
    rw [(Next.aborted (h.finished ▸ hopen) hup).eq]
    exact ⟨h.query, h.nextUrl, h.lastDatestamp, rfl, rfl⟩
  | queued r rest hopen hdown hqueue =>
    rw [(Next.queued r rest (h.finished ▸ hopen) hdown (h.queue ▸ hqueue)).eq]
    refine ⟨h.query, h.nextUrl, ?_, rfl, h.finished⟩
    simp [h.lastDatestamp]
  | exhausted hopen hdown hqueue hurl =>
    rw [(Next.exhausted (h.finished ▸ hopen) hdown (h.queue ▸ hqueue) (h.nextUrl ▸ hurl)).eq]
    exact ⟨h.query, h.nextUrl, h.lastDatestamp, h.queue, rfl⟩
  | abandoned url t hopen hdown hqueue hurl hturn hnone =>
    rw [h.query, h.lastDatestamp] at hturn
    rw [(Next.abandoned url t (h.finished ▸ hopen) hdown (h.queue ▸ hqueue) (h.nextUrl ▸ hurl)
      hturn hnone).eq]
    exact ⟨h.query, rfl, h.lastDatestamp, rfl, rfl⟩
  | failed url t e hopen hdown hqueue hurl hturn herror =>
    rw [h.query, h.lastDatestamp] at hturn
    rw [(Next.failed url t e (h.finished ▸ hopen) hdown (h.queue ▸ hqueue) (h.nextUrl ▸ hurl)
      hturn herror).eq]
    exact ⟨h.query, rfl, h.lastDatestamp, h.queue, rfl⟩
  | turned url t page r rest hopen hdown hqueue hurl hturn hpage hrecords =>
    rw [h.query, h.lastDatestamp] at hturn
    rw [(Next.turned url t page r rest (h.finished ▸ hopen) hdown (h.queue ▸ hqueue)
      (h.nextUrl ▸ hurl) hturn hpage hrecords).eq]
    refine ⟨?_, ?_, ?_, ?_, ?_⟩
    · simpa using h.query
    · simp [h.query]
    · simp [h.lastDatestamp]
    · simp
    · simpa using h.finished

theorem Same.reached_add {i j : ℕ} (h : Same (reached answers q i) (reached answers q j)) (k : ℕ) :
    Same (reached answers q (i + k)) (reached answers q (j + k)) := by
  induction k with
  | zero => exact h
  | succ k ih =>
    rw [← Nat.add_assoc, ← Nat.add_assoc, reached_succ, reached_succ]
    exact ih.next _ _

/-- When the same page is due once more, the cursor stands where it stood before. -/
theorem same_of_due {i j : ℕ} {url : String} {last : Option String}
    (hi : due (reached answers q i) = some (url, last))
    (hj : due (reached answers q j) = some (url, last)) :
    Same (reached answers q i) (reached answers q j) := by
  obtain ⟨hopen, hqueue, hurl, hlast⟩ := (due_eq_some_iff _ _ _).mp hi
  obtain ⟨hopen', hqueue', hurl', hlast'⟩ := (due_eq_some_iff _ _ _).mp hj
  exact {
    query := (reached_within answers q i).query.trans (reached_within answers q j).query.symm
    nextUrl := hurl.trans hurl'.symm
    lastDatestamp := hlast.trans hlast'.symm
    queue := hqueue.trans hqueue'.symm
    finished := hopen.trans hopen'.symm }

/-- A page due twice is due for ever. The first call after which the cursor is finished would come
after both, and then the cursor would be finished as many calls earlier as lie between them. -/
theorem never_finished {i j : ℕ} (hij : i < j) {url : String} {last : Option String}
    (hi : due (reached answers q i) = some (url, last))
    (hj : due (reached answers q j) = some (url, last)) (n : ℕ) :
    (reached answers q n).finished = false := by
  by_contra hdone
  have hend : ∃ n, (reached answers q n).finished = true := ⟨n, by simpa using hdone⟩
  classical
  have hfirst := Nat.find_spec hend
  have hopen : (reached answers q j).finished = false := ((due_eq_some_iff _ _ _).mp hj).1
  have hlate : j < Nat.find hend := by
    by_contra hle
    have hdone' := after_finished_mono (.fixed answers) (Nat.le_of_not_lt hle) (.ofQuery q) calm
      hfirst
    simp [reached, hdone'] at hopen
  obtain ⟨k, hk⟩ := Nat.exists_eq_add_of_lt hlate
  have hsame := (same_of_due answers q hi hj).reached_add answers q (k + 1)
  rw [← Nat.add_assoc j, ← hk] at hsame
  refine Nat.find_min hend (m := i + (k + 1)) (by omega) ?_
  rw [hsame.finished]
  exact hfirst

/-- Where few pages have records, the answers come to an end exactly when no page falls due twice
with the same last datestamp. -/
theorem ends_iff_no_page_twice (hfew : (fruitful answers).Finite) :
    (∃ n, ((Cursor.ofQuery q).drain (.fixed answers) n calm).1.length < n) ↔
      ∀ i j, i < j → due (reached answers q i) = due (reached answers q j) →
        due (reached answers q i) = none := by
  rw [ends_iff_finished]
  constructor
  · rintro ⟨n, hdone⟩ i j hij hsame
    cases hdue : due (reached answers q i) with
    | none => rfl
    | some place =>
      exfalso
      have hopen := never_finished answers q hij hdue (hsame.symm.trans hdue) n
      simp [reached, hdone] at hopen
  · intro honce
    by_contra hnever
    have hopen : ∀ n, (reached answers q n).finished = false := by
      intro n
      by_contra hdone
      exact hnever ⟨n, by simpa [reached] using hdone⟩
    have hinfinite : {m | ∃ place, due (reached answers q m) = some place}.Infinite := by
      apply Set.infinite_of_forall_exists_gt
      intro n
      obtain ⟨m, hm, hdue⟩ := exists_due answers q hopen (n + 1)
      exact ⟨m, hdue, by omega⟩
    have hmaps : Set.MapsTo (fun m => due (reached answers q m))
        {m | ∃ place, due (reached answers q m) = some place}
        (some '' (places answers q ×ˢ lasts answers)) := by
      rintro m ⟨⟨url, last⟩, hdue⟩
      obtain ⟨_, _, hurl, hlast⟩ := (due_eq_some_iff _ _ _).mp hdue
      have hwithin := reached_within answers q m
      exact ⟨(url, last), ⟨hwithin.place url hurl, hlast ▸ hwithin.last⟩, hdue.symm⟩
    obtain ⟨i, ⟨place, hdue⟩, j, _, hij, hsame⟩ :=
      hinfinite.exists_lt_map_eq_of_mapsTo hmaps (dues_finite answers q hfew)
    rw [honce i j hij hsame] at hdue
    cases hdue

/-- Answers with both records at the address of the list, and nowhere else. -/
def single (url : String) : Except Error String :=
  if url = q.url then .ok bothBody else .error .malformedXml

/-- A list of one page comes to its end, and so no page falls due twice. -/
theorem single_page_ends :
    let q : ListQuery := { hostUrl := "h", metadataPrefix := "p" }
    (fruitful (single q)).Finite ∧
      (∃ n, ((Cursor.ofQuery q).drain (.fixed (single q)) n calm).1.length < n) ∧
      ∀ i j, i < j → due (reached (single q) q i) = due (reached (single q) q j) →
        due (reached (single q) q i) = none := by
  intro q
  have hfew : (fruitful (single q)).Finite := by
    apply (Set.finite_singleton q.url).subset
    exact fruitful_subset (single q) _ fun url hother => if_neg hother
  have hpage : (pageAt (.fixed (single q)) q.url ()).1 = bothPage := by
    simp [pageAt, Source.fixed, single, ofAnswer_bothBody]
  have hlist : listing q (.fixed (single q)) 3 [] q.url () =
      [⟨[q.url], [.ok early, .ok late]⟩] := by
    have hleg : find q (.fixed (single q)) [] q.url () = _ := find_page hpage (List.cons_ne_nil _ _)
    rw [listing_ok _ _ _ _ _ _ bothPage (by rw [hleg]), hleg, nextToken_bothPage]
    rfl
  have hend : ∃ n, ((Cursor.ofQuery q).drain (.fixed (single q)) n calm).1.length < n := by
    refine ⟨3, ?_⟩
    rw [calm, (drain_eq_listing q (.fixed (single q)) (fun _ _ => rfl) () 3 3 (Nat.le_refl 3)).1,
      hlist]
    decide
  exact ⟨hfew, hend, (ends_iff_no_page_twice (single q) q hfew).mp hend⟩

/-! A token that leads back to its own page -/

theorem turn_pageOf (last : Option String) (url : String) (h : url ∈ fruitful answers) :
    turn (.fixed answers) q last url calm =
      ⟨[url], some (.ok (pageOf answers url)), calm⟩ := by
  have hpage : (pageAt (.fixed answers) url ()).1 = pageOf answers url := rfl
  have hrecords : (pageOf answers url).records ≠ [] := h
  simp [turn, calm, request_quiet (.fixed answers) (fun _ _ => rfl), hpage, hrecords]

/-- After a page with one record and a token, that token is due. -/
theorem due_next (c : Cursor) (url : String) (last : Option String)
    (hdue : due c = some (url, last)) (hpage : pageOf answers url = earlyPage) :
    due (c.next (.fixed answers) calm).2.1 = some (c.query.resumptionUrl "t", some "1") := by
  obtain ⟨hopen, hqueue, hurl, _⟩ := (due_eq_some_iff _ _ _).mp hdue
  have hturn := turn_pageOf answers c.query c.lastDatestamp url (by simp [fruitful, hpage, earlyPage])
  rw [hpage] at hturn
  rw [(Next.turned url _ earlyPage early [] hopen rfl hqueue hurl hturn rfl rfl).eq]
  apply (due_eq_some_iff _ _ _).mpr
  refine ⟨?_, ?_, ?_, ?_⟩
  · simpa using hopen
  · simp
  · simp [nextToken_earlyPage]
  · rfl

/-- Answers the page `earlyPage` at the address of the list and at that of its token. -/
def looping (url : String) : Except Error String :=
  if url = q.url ∨ url = q.resumptionUrl "t" then .ok earlyBody else .error .malformedXml

theorem looping_due (n : ℕ) :
    due (reached (looping q) q (n + 1)) = some (q.resumptionUrl "t", some "1") := by
  have hpage (url : String) (h : url = q.url ∨ url = q.resumptionUrl "t") :
      pageOf (looping q) url = earlyPage := by
    rw [pageOf, looping, if_pos h, ofAnswer_earlyBody]
  induction n with
  | zero =>
    rw [reached_succ]
    exact due_next (looping q) (.ofQuery q) q.url none rfl (hpage _ (Or.inl rfl))
  | succ n ih =>
    rw [reached_succ, due_next (looping q) _ _ _ ih (hpage _ (Or.inr rfl)),
      (reached_within (looping q) q (n + 1)).query]

/-- That few pages have records does not make a list end. -/
theorem list_without_end :
    ¬ ∀ (q : ListQuery) (answers : String → Except Error String), (fruitful answers).Finite →
      ∃ n, ((Cursor.ofQuery q).drain (.fixed answers) n calm).1.length < n := by
  intro hends
  let q : ListQuery := { hostUrl := "h", metadataPrefix := "p" }
  have hfew : (fruitful (looping q)).Finite := by
    apply (Set.toFinite {q.url, q.resumptionUrl "t"}).subset
    exact fruitful_subset (looping q) _ fun url hother => if_neg hother
  obtain ⟨n, hn⟩ := (ends_iff_finished _ _ _).mp (hends q (looping q) hfew)
  have hopen := never_finished (looping q) q (Nat.lt_succ_self 1) (looping_due q 0)
    (looping_due q 1) n
  simp [reached, hn] at hopen

end Harvest.Circling
