import Harvest.Cursor
import Mathlib.Tactic.Common

/-!
What a call on a cursor can come to. A turn is one page asked for, together with the second request
that a page without records leads to. It depends on the query, the last datestamp and the session
alone, and all a call changes in a cursor is read off its turn. `next` is told in two further ways:
case by case, and as the loop that goes round until there is a record, an error or an end.
-/
namespace Harvest.Fetching

open Cursor

variable {σ : Type}

/-- A page asked for: the requests made for it, and the page to use or the error. There is neither
if the flag was raised meanwhile. -/
structure Turn (σ : Type) where
  urls : List String
  outcome : Option (Except Error Page)
  session : Session σ

/-- The only request of a turn, or the second one. -/
def request (source : Source σ) (url : String) (last : Option String) (s : Session σ) : Turn σ :=
  let (answer, s) := s.request source url
  let (page, shortfall) := Page.ofAnswer answer
  { urls := [url],
    outcome :=
      if s.aborted then none
      else if page.records.isEmpty then some (.error (.extraction url last shortfall))
      else some (.ok page),
    session := s }

def turn (source : Source σ) (q : ListQuery) (last : Option String) (url : String)
    (s : Session σ) : Turn σ :=
  let first := request source url none s
  match first.outcome, last with
  | some (.error _), some datestamp =>
    let second := request source (q.urlSince (some datestamp)) (some datestamp) first.session
    { second with urls := url :: second.urls }
  | _, _ => first

/-- The cursor after the requests of a turn. -/
def asked (t : Turn σ) (c : Cursor) : Cursor :=
  { c with nextUrl := none, pages := c.pages + t.urls.length }

/-- The cursor after the turn of a page. -/
def afterTurn (t : Turn σ) (c : Cursor) : Cursor :=
  match t.outcome with
  | some (.ok page) => (asked t c).accept page
  | _ => asked t c

def hand (r : Record) (rest : List Record) (c : Cursor) : Cursor :=
  { c with queue := rest, lastDatestamp := r.datestamp.or c.lastDatestamp }

@[simp] theorem accept_query (c : Cursor) (page : Page) : (c.accept page).query = c.query := by
  unfold accept; dsimp only; split <;> rfl

@[simp] theorem accept_nextUrl (c : Cursor) (page : Page) :
    (c.accept page).nextUrl = page.nextToken?.map c.query.resumptionUrl := by
  unfold accept; dsimp only; split <;> rfl

@[simp] theorem accept_lastDatestamp (c : Cursor) (page : Page) :
    (c.accept page).lastDatestamp = c.lastDatestamp := by
  unfold accept; dsimp only; split <;> rfl

@[simp] theorem accept_queue (c : Cursor) (page : Page) :
    (c.accept page).queue = c.queue ++ page.records := by
  unfold accept; dsimp only; split <;> rfl

@[simp] theorem accept_pages (c : Cursor) (page : Page) : (c.accept page).pages = c.pages := by
  unfold accept; dsimp only; split <;> rfl

@[simp] theorem accept_finished (c : Cursor) (page : Page) :
    (c.accept page).finished = c.finished := by
  unfold accept; dsimp only; split <;> rfl

@[simp] theorem asked_query (t : Turn σ) (c : Cursor) : (asked t c).query = c.query := rfl

@[simp] theorem asked_lastDatestamp (t : Turn σ) (c : Cursor) :
    (asked t c).lastDatestamp = c.lastDatestamp := rfl

@[simp] theorem asked_queue (t : Turn σ) (c : Cursor) : (asked t c).queue = c.queue := rfl

@[simp] theorem asked_finished (t : Turn σ) (c : Cursor) :
    (asked t c).finished = c.finished := rfl

@[simp] theorem hand_query (r : Record) (rest : List Record) (c : Cursor) :
    (hand r rest c).query = c.query := rfl

@[simp] theorem hand_nextUrl (r : Record) (rest : List Record) (c : Cursor) :
    (hand r rest c).nextUrl = c.nextUrl := rfl

@[simp] theorem hand_lastDatestamp (r : Record) (rest : List Record) (c : Cursor) :
    (hand r rest c).lastDatestamp = r.datestamp.or c.lastDatestamp := rfl

@[simp] theorem hand_queue (r : Record) (rest : List Record) (c : Cursor) :
    (hand r rest c).queue = rest := rfl

@[simp] theorem hand_finished (r : Record) (rest : List Record) (c : Cursor) :
    (hand r rest c).finished = c.finished := rfl

/-- What is told of a turn. An abort is no error. -/
def Turn.result (t : Turn σ) : Except Error Unit :=
  match t.outcome with
  | some (.error e) => .error e
  | _ => .ok ()

theorem Turn.outcome_of_result_error (t : Turn σ) (e : Error) (h : t.result = .error e) :
    t.outcome = some (.error e) := by
  unfold result at h
  split at h
  · rename_i e' hout
    rw [hout, Except.error.inj h]
  · simp at h

/-- A request is cut short by the flag, or it brings a page without records, or one with records. -/
theorem request_cases (source : Source σ) (url : String) (last : Option String) (s : Session σ) :
    let r := s.request source url
    let p := Page.ofAnswer r.1
    (r.2.aborted = true ∧ request source url last s = ⟨[url], none, r.2⟩) ∨
    (r.2.aborted = false ∧ p.1.records = [] ∧
      request source url last s = ⟨[url], some (.error (.extraction url last p.2)), r.2⟩) ∨
    (r.2.aborted = false ∧ p.1.records ≠ [] ∧
      request source url last s = ⟨[url], some (.ok p.1), r.2⟩) := by
  intro r p
  by_cases hup : r.2.aborted = true
  · exact Or.inl ⟨hup, by simp [request, r, hup]⟩
  · have hdown : r.2.aborted = false := by simpa using hup
    by_cases hpage : p.1.records = []
    · exact Or.inr (Or.inl ⟨hdown, hpage, by simp [request, r, p, hdown, hpage]⟩)
    · exact Or.inr (Or.inr ⟨hdown, hpage, by simp [request, r, p, hdown, hpage]⟩)

theorem request_outcome_ok (source : Source σ) (url : String) (last : Option String)
    (s : Session σ) (page : Page) (h : (request source url last s).outcome = some (.ok page)) :
    page.records ≠ [] := by
  rcases request_cases source url last s with ⟨_, heq⟩ | ⟨_, _, heq⟩ | ⟨_, hpage, heq⟩
  · simp [heq] at h
  · simp [heq] at h
  · rw [heq] at h
    injection h with h
    injection h with h
    exact h ▸ hpage

/-- A turn is its first request, or the second one if the first brought no records and there is a
datestamp to start again from. -/
theorem turn_cases (source : Source σ) (q : ListQuery) (last : Option String) (url : String)
    (s : Session σ) :
    let first := request source url none s
    turn source q last url s = first ∨
      ∃ e datestamp, first.outcome = some (.error e) ∧ last = some datestamp ∧
        let second := request source (q.urlSince (some datestamp)) (some datestamp) first.session
        turn source q last url s = { second with urls := url :: second.urls } := by
  intro first
  unfold turn
  dsimp only
  split
  · rename_i e datestamp hout
    exact Or.inr ⟨e, datestamp, hout, rfl, rfl⟩
  · exact Or.inl rfl

theorem turn_urls_pos (source : Source σ) (q : ListQuery) (last : Option String) (url : String)
    (s : Session σ) : 0 < (turn source q last url s).urls.length := by
  rcases turn_cases source q last url s with heq | ⟨e, datestamp, _, _, heq⟩
  · simp [heq, request]
  · simp [heq]

/-- A page that is used has records. -/
theorem turn_outcome_ok (source : Source σ) (q : ListQuery) (last : Option String) (url : String)
    (s : Session σ) (page : Page) (h : (turn source q last url s).outcome = some (.ok page)) :
    page.records ≠ [] := by
  rcases turn_cases source q last url s with heq | ⟨e, datestamp, _, _, heq⟩
  · rw [heq] at h
    exact request_outcome_ok _ _ _ _ page h
  · rw [heq] at h
    exact request_outcome_ok _ _ _ _ page h

theorem request_aborted (source : Source σ) (url : String) (last : Option String)
    (s : Session σ) :
    (request source url last s).session.aborted = (request source url last s).outcome.isNone := by
  rcases request_cases source url last s with ⟨hup, heq⟩ | ⟨hdown, _, heq⟩ | ⟨hdown, _, heq⟩
  · simp [heq, hup]
  · simp [heq, hdown]
  · simp [heq, hdown]

/-- A turn gives neither page nor error exactly when the flag is up after it. -/
theorem turn_aborted (source : Source σ) (q : ListQuery) (last : Option String) (url : String)
    (s : Session σ) :
    (turn source q last url s).session.aborted = (turn source q last url s).outcome.isNone := by
  rcases turn_cases source q last url s with heq | ⟨e, datestamp, _, _, heq⟩
  · rw [heq]
    exact request_aborted _ _ _ _
  · rw [heq]
    exact request_aborted _ _ _ _

/-- The second request of a turn that asked for `url` before. -/
theorem fetchSince_eq (source : Source σ) (datestamp url : String) (c : Cursor) (s : Session σ) :
    fetchSince source datestamp { c with nextUrl := none, pages := c.pages + 1 } s =
      let t := request source (c.query.urlSince (some datestamp)) (some datestamp) s
      let t := { t with urls := url :: t.urls }
      (t.result, afterTurn t c, t.session) := by
  simp only [fetchSince, loadPage]
  rcases request_cases source (c.query.urlSince (some datestamp)) (some datestamp) s with
    ⟨hup, heq⟩ | ⟨hdown, hpage, heq⟩ | ⟨hdown, hpage, heq⟩
  · rw [heq]
    simp [Turn.result, afterTurn, asked, hup]
  · rw [heq]
    simp [Turn.result, afterTurn, asked, hdown, hpage]
  · rw [heq]
    simp [Turn.result, afterTurn, asked, hdown, hpage]

/-- Asking for a page does what its turn says. -/
theorem fetchPage_eq (source : Source σ) (url : String) (c : Cursor) (s : Session σ) :
    fetchPage source url { c with nextUrl := none } s =
      let t := turn source c.query c.lastDatestamp url s
      (t.result, afterTurn t c, t.session) := by
  simp only [fetchPage, loadPage, turn]
  rcases request_cases source url none s with
    ⟨hup, heq⟩ | ⟨hdown, hpage, heq⟩ | ⟨hdown, hpage, heq⟩
  · rw [heq]
    simp [Turn.result, afterTurn, asked, hup]
  · rw [heq]
    cases hlast : c.lastDatestamp with
    | none => simp [Turn.result, afterTurn, asked, hdown, hpage, hlast]
    | some datestamp =>
      simpa [hdown, hpage, hlast] using fetchSince_eq source datestamp url c (s.request source url).2
  · rw [heq]
    simp [Turn.result, afterTurn, asked, hdown, hpage]

/-- The ways a call of `next` can go, with all that it leaves behind. -/
inductive Next (source : Source σ) (c : Cursor) (s : Session σ) :
    Option (Except Error Record) → Cursor → Session σ → Prop
  | finished (hdone : c.finished = true) : Next source c s none c s
  | aborted (hopen : c.finished = false) (hup : s.aborted = true) : Next source c s none c.stop s
  | queued (r : Record) (rest : List Record) (hopen : c.finished = false)
      (hdown : s.aborted = false) (hqueue : c.queue = r :: rest) :
      Next source c s (some (.ok r)) (hand r rest c) s
  | exhausted (hopen : c.finished = false) (hdown : s.aborted = false) (hqueue : c.queue = [])
      (hurl : c.nextUrl = none) : Next source c s none { c with finished := true } s
  | abandoned (url : String) (t : Turn σ) (hopen : c.finished = false)
      (hdown : s.aborted = false) (hqueue : c.queue = []) (hurl : c.nextUrl = some url)
      (hturn : turn source c.query c.lastDatestamp url s = t) (hnone : t.outcome = none) :
      Next source c s none (asked t c).stop t.session
  | failed (url : String) (t : Turn σ) (e : Error) (hopen : c.finished = false)
      (hdown : s.aborted = false) (hqueue : c.queue = []) (hurl : c.nextUrl = some url)
      (hturn : turn source c.query c.lastDatestamp url s = t)
      (herror : t.outcome = some (.error e)) :
      Next source c s (some (.error e)) { asked t c with finished := true } t.session
  | turned (url : String) (t : Turn σ) (page : Page) (r : Record) (rest : List Record)
      (hopen : c.finished = false) (hdown : s.aborted = false) (hqueue : c.queue = [])
      (hurl : c.nextUrl = some url) (hturn : turn source c.query c.lastDatestamp url s = t)
      (hpage : t.outcome = some (.ok page)) (hrecords : page.records = r :: rest) :
      Next source c s (some (.ok r)) (hand r rest ((asked t c).accept page)) t.session

theorem move_queued (c : Cursor) (r : Record) (rest : List Record) (hopen : c.finished = false)
    (hqueue : c.queue = r :: rest) : c.move false = .answer (some r) (hand r rest c) := by
  simp [move, hopen, hqueue, hand]

theorem move_ask (c : Cursor) (url : String) (hopen : c.finished = false)
    (hqueue : c.queue = []) (hurl : c.nextUrl = some url) :
    c.move false = .ask url { c with nextUrl := none } := by
  simp only [move, hopen, hqueue, hurl, Bool.false_eq_true, if_false]

/-- An abort is noticed as soon as a cursor is to move. -/
theorem move_aborted (c : Cursor) (hopen : c.finished = false) :
    c.move true = .answer none c.stop := by
  simp [move, hopen]

theorem Next.eq {source : Source σ} {c c' : Cursor} {s s' : Session σ}
    {a : Option (Except Error Record)} (h : Next source c s a c' s') :
    c.next source s = (a, c', s') := by
  cases h with
  | finished hdone => simp [next, move, hdone]
  | aborted hopen hup => simp [next, hup, move_aborted c hopen]
  | queued r rest hopen hdown hqueue => simp [next, hdown, move_queued c r rest hopen hqueue]
  | exhausted hopen hdown hqueue hurl => simp [next, move, hopen, hdown, hqueue, hurl]
  | abandoned url t hopen hdown hqueue hurl hturn hnone =>
    have hup : t.session.aborted = true := by
      rw [← hturn, turn_aborted, hturn, hnone]
      rfl
    have hstop : (asked t c).move true = .answer none (asked t c).stop := move_aborted _ hopen
    simp only [next, hdown, move_ask c url hopen hqueue hurl, fetchPage_eq, hturn, Turn.result,
      afterTurn, hnone, hup, hstop, Option.map_none]
  | failed url t e hopen hdown hqueue hurl hturn herror =>
    simp only [next, hdown, move_ask c url hopen hqueue hurl, fetchPage_eq, hturn, Turn.result,
      afterTurn, herror]
  | turned url t page r rest hopen hdown hqueue hurl hturn hpage hrecords =>
    have hdown' : t.session.aborted = false := by
      rw [← hturn, turn_aborted, hturn, hpage]
      rfl
    have hhand : ((asked t c).accept page).move false =
        .answer (some r) (hand r rest ((asked t c).accept page)) := by
      apply move_queued
      · exact (accept_finished _ page).trans hopen
      · rw [accept_queue, hrecords]
        simp [asked, hqueue]
    simp only [next, hdown, move_ask c url hopen hqueue hurl, fetchPage_eq, hturn, Turn.result,
      afterTurn, hpage, hdown', hhand, Option.map_some]

theorem exists_next (source : Source σ) (c : Cursor) (s : Session σ) :
    ∃ a c' s', Next source c s a c' s' := by
  cases hdone : c.finished with
  | true => exact ⟨_, _, _, .finished hdone⟩
  | false =>
    cases hup : s.aborted with
    | true => exact ⟨_, _, _, .aborted hdone hup⟩
    | false =>
      cases hqueue : c.queue with
      | cons r rest => exact ⟨_, _, _, .queued r rest hdone hup hqueue⟩
      | nil =>
        cases hurl : c.nextUrl with
        | none => exact ⟨_, _, _, .exhausted hdone hup hqueue hurl⟩
        | some url =>
          cases hout : (turn source c.query c.lastDatestamp url s).outcome with
          | none => exact ⟨_, _, _, .abandoned url _ hdone hup hqueue hurl rfl hout⟩
          | some result =>
            cases result with
            | error e => exact ⟨_, _, _, .failed url _ e hdone hup hqueue hurl rfl hout⟩
            | ok page =>
              obtain ⟨r, rest, hrecords⟩ :=
                List.exists_cons_of_ne_nil (turn_outcome_ok source _ _ url s page hout)
              exact ⟨_, _, _, .turned url _ page r rest hdone hup hqueue hurl rfl hout hrecords⟩

/-- A call goes one of the ways listed, and what it answers tells which. -/
theorem next_iff (source : Source σ) (c c' : Cursor) (s s' : Session σ)
    (a : Option (Except Error Record)) :
    c.next source s = (a, c', s') ↔ Next source c s a c' s' := by
  constructor
  · intro h
    obtain ⟨b, d, t, hnext⟩ := exists_next source c s
    have heq := h.symm.trans hnext.eq
    injection heq with ha heq
    injection heq with hc hs
    subst ha hc hs
    exact hnext
  · exact Next.eq

/-- The loop that answers a call: it goes round again after every page asked for without an error.
Nothing bounds the rounds. -/
inductive Loop (source : Source σ) : Cursor → Session σ →
    Option (Except Error Record) → Cursor → Session σ → Prop
  | answer {c c' : Cursor} {s : Session σ} {record : Option Record}
      (hmove : c.move s.aborted = .answer record c') : Loop source c s (record.map .ok) c' s
  | failed {c c₁ c₂ : Cursor} {s s₂ : Session σ} {url : String} {e : Error}
      (hmove : c.move s.aborted = .ask url c₁)
      (hfetch : fetchPage source url c₁ s = (.error e, c₂, s₂)) :
      Loop source c s (some (.error e)) { c₂ with finished := true } s₂
  | again {c c₁ c₂ c₃ : Cursor} {s s₂ s₃ : Session σ} {url : String}
      {a : Option (Except Error Record)} (hmove : c.move s.aborted = .ask url c₁)
      (hfetch : fetchPage source url c₁ s = (.ok (), c₂, s₂)) (hloop : Loop source c₂ s₂ a c₃ s₃) :
      Loop source c s a c₃ s₃

theorem move_ask_iff (c c₁ : Cursor) (aborted : Bool) (url : String) :
    c.move aborted = .ask url c₁ ↔
      aborted = false ∧ c.finished = false ∧ c.queue = [] ∧ c.nextUrl = some url ∧
        c₁ = { c with nextUrl := none } := by
  constructor
  · intro h
    unfold move at h
    split at h
    · simp at h
    · split at h
      · simp at h
      · split at h
        · simp at h
        · split at h
          · rename_i hdone hup _ hqueue _ _ hurl
            injection h with h₁ h₂
            subst h₁
            exact ⟨by simpa using hup, by simpa using hdone, hqueue, hurl, h₂.symm⟩
          · simp at h
  · rintro ⟨rfl, hopen, hqueue, hurl, rfl⟩
    exact move_ask c url hopen hqueue hurl

/-- After a page was asked for without an error there is something to answer with: a record of the
page, or the end if the flag is up. -/
theorem exists_answer_of_fetched {source : Source σ} {c c₁ c₂ : Cursor} {s s₂ : Session σ}
    {url : String} (hmove : c.move s.aborted = .ask url c₁)
    (hfetch : fetchPage source url c₁ s = (.ok (), c₂, s₂)) :
    ∃ record c₃, c₂.move s₂.aborted = .answer record c₃ := by
  cases hmove₂ : c₂.move s₂.aborted with
  | answer record c₃ => exact ⟨record, c₃, rfl⟩
  | ask url' c₃ =>
    exfalso
    obtain ⟨hdown, _, hqueue, _, _⟩ := (move_ask_iff _ _ _ _).mp hmove₂
    obtain ⟨_, _, _, _, rfl⟩ := (move_ask_iff _ _ _ _).mp hmove
    rw [fetchPage_eq] at hfetch
    injection hfetch with hresult hfetch
    injection hfetch with hc hs
    subst hc hs
    rw [turn_aborted] at hdown
    cases hout : (turn source c.query c.lastDatestamp url s).outcome with
    | none => simp [hout] at hdown
    | some outcome =>
      cases outcome with
      | error e => simp [Turn.result, hout] at hresult
      | ok page =>
        apply turn_outcome_ok source c.query c.lastDatestamp url s page hout
        simp only [afterTurn, hout, accept_queue, List.append_eq_nil_iff] at hqueue
        exact hqueue.2

/-- The loop ends in its second round at the latest, and `next` answers what it answers. -/
theorem loop_iff_next (source : Source σ) (c c' : Cursor) (s s' : Session σ)
    (a : Option (Except Error Record)) :
    Loop source c s a c' s' ↔ c.next source s = (a, c', s') := by
  constructor
  · intro h
    cases h with
    | answer hmove => simp only [next, hmove]
    | failed hmove hfetch => simp only [next, hmove, hfetch]
    | again hmove hfetch hloop =>
      obtain ⟨record, c₃, hmove₂⟩ := exists_answer_of_fetched hmove hfetch
      cases hloop with
      | answer hmove₃ => simp only [next, hmove, hfetch, hmove₃]
      | failed hmove₃ _ => simp [hmove₂] at hmove₃
      | again hmove₃ _ _ => simp [hmove₂] at hmove₃
  · intro h
    rcases hmove : c.move s.aborted with ⟨record, c₁⟩ | ⟨url, c₁⟩
    · simp only [next, hmove, Prod.mk.injEq] at h
      obtain ⟨rfl, rfl, rfl⟩ := h
      exact .answer hmove
    · rcases hfetch : fetchPage source url c₁ s with ⟨e | u, c₂, s₂⟩
      · simp only [next, hmove, hfetch, Prod.mk.injEq] at h
        obtain ⟨rfl, rfl, rfl⟩ := h
        exact .failed hmove hfetch
      · obtain ⟨record, c₃, hmove₂⟩ := exists_answer_of_fetched hmove hfetch
        simp only [next, hmove, hfetch, hmove₂, Prod.mk.injEq] at h
        obtain ⟨rfl, rfl, rfl⟩ := h
        exact .again hmove hfetch (.answer hmove₂)

/-- The ways a call of `start` can go. -/
inductive Start (source : Source σ) (c : Cursor) (s : Session σ) :
    Except Error Unit → Cursor → Session σ → Prop
  | idle (hidle : 0 < c.pages ∨ c.finished = true ∨ s.aborted = true ∨ c.nextUrl = none) :
      Start source c s (.ok ()) c s
  | failed (url : String) (t : Turn σ) (e : Error) (hpages : c.pages = 0)
      (hopen : c.finished = false) (hdown : s.aborted = false) (hurl : c.nextUrl = some url)
      (hturn : turn source c.query c.lastDatestamp url s = t)
      (herror : t.outcome = some (.error e)) :
      Start source c s (.error e) { asked t c with finished := true } t.session
  | begun (url : String) (t : Turn σ) (hpages : c.pages = 0)
      (hopen : c.finished = false) (hdown : s.aborted = false) (hurl : c.nextUrl = some url)
      (hturn : turn source c.query c.lastDatestamp url s = t) (hresult : t.result = .ok ()) :
      Start source c s (.ok ()) (afterTurn t c) t.session

theorem Start.eq {source : Source σ} {c c' : Cursor} {s s' : Session σ} {r : Except Error Unit}
    (h : Start source c s r c' s') : c.start source s = (r, c', s') := by
  cases h with
  | idle hidle =>
    rcases hidle with hpages | hdone | hup | hurl
    · simp [start, hpages]
    · simp [start, hdone]
    · simp [start, hup]
    · simp [start, hurl]
  | failed url t e hpages hopen hdown hurl hturn herror =>
    have hready : ¬(decide (0 < c.pages) || c.finished || s.aborted) = true := by
      simp [hpages, hopen, hdown]
    rw [start, if_neg hready]
    simp only [hurl, fetchPage_eq, hturn, Turn.result, afterTurn, herror]
  | begun url t hpages hopen hdown hurl hturn hresult =>
    have hready : ¬(decide (0 < c.pages) || c.finished || s.aborted) = true := by
      simp [hpages, hopen, hdown]
    rw [start, if_neg hready]
    simp only [hurl, fetchPage_eq, hturn, hresult]

theorem exists_start (source : Source σ) (c : Cursor) (s : Session σ) :
    ∃ r c' s', Start source c s r c' s' := by
  by_cases hidle : 0 < c.pages ∨ c.finished = true ∨ s.aborted = true ∨ c.nextUrl = none
  · exact ⟨_, _, _, .idle hidle⟩
  · simp only [not_or, Bool.not_eq_true, Option.ne_none_iff_exists'] at hidle
    obtain ⟨hpages, hopen, hdown, url, hurl⟩ := hidle
    have hpages : c.pages = 0 := by omega
    cases hresult : (turn source c.query c.lastDatestamp url s).result with
    | error e =>
      exact ⟨_, _, _, .failed url _ e hpages hopen hdown hurl rfl
        (Turn.outcome_of_result_error _ e hresult)⟩
    | ok u => exact ⟨_, _, _, .begun url _ hpages hopen hdown hurl rfl hresult⟩

theorem start_iff (source : Source σ) (c c' : Cursor) (s s' : Session σ)
    (r : Except Error Unit) :
    c.start source s = (r, c', s') ↔ Start source c s r c' s' := by
  constructor
  · intro h
    obtain ⟨b, d, t, hstart⟩ := exists_start source c s
    have heq := h.symm.trans hstart.eq
    injection heq with hr heq
    injection heq with hc hs
    subst hr hc hs
    exact hstart
  · exact Start.eq

end Harvest.Fetching
