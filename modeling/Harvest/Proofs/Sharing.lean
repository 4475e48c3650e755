import Harvest.Proofs.Lookup
import Harvest.Source.Cache
import Mathlib.Data.Finset.Card
import Mathlib.Data.List.DropRight

/-!
One cache for many clients. A fetch is three steps: the client looks the address up, asks the source
if the address is missing, and stores the body that came. Between these steps others may take
theirs, the cache may be cleared, and the source may change. The events tell what the source
answered, what was stored and what the clients got; the cache is what the stores since the last
clearing left.
-/
namespace Harvest.Sharing

/-- Where a client is in a fetch: nowhere, or it did not find an address, or it has a body to
store. -/
inductive Phase where
  | idle
  | missed (url : String)
  | holding (url body : String)
deriving DecidableEq

variable {ι σ : Type}

structure World (ι σ : Type) where
  cache : Cache := {}
  phase : ι → Phase := fun _ => .idle
  inner : σ

inductive Act (ι σ : Type) where
  | lookUp (client : ι) (url : String)
  | ask (client : ι)
  | store (client : ι)
  | clear
  /-- The source comes into another state by itself. -/
  | drift (inner : σ)

inductive Event (ι : Type) where
  | asked (client : ι) (url : String) (answer : Except Error String)
  | stored (client : ι) (url body : String)
  | returned (client : ι) (url : String) (answer : Except Error String)
  | cleared

def Act.client? : Act ι σ → Option ι
  | .lookUp i _ | .ask i | .store i => some i
  | .clear | .drift _ => none

def Event.client? : Event ι → Option ι
  | .asked i _ _ | .stored i _ _ | .returned i _ _ => some i
  | .cleared => none

/-! Events and those before them -/

section

variable {α : Type}

/-- Each entry of a list stands in the relation to those before it. -/
def Throughout (P : List α → α → Prop) (l : List α) : Prop :=
  ∀ before x after, l = before ++ x :: after → P before x

theorem throughout_nil (P : List α → α → Prop) : Throughout P [] := by
  intro before x after h
  simp at h

theorem Throughout.append {P : List α → α → Prop} {l m : List α} (hl : Throughout P l)
    (hm : Throughout (fun before x => P (l ++ before) x) m) : Throughout P (l ++ m) := by
  intro before x after h
  rcases List.append_eq_append_iff.mp h with ⟨more, hbefore, hafter⟩ | ⟨more, hbefore, hafter⟩
  · rw [hbefore]
    exact hm more x after hafter
  · cases more with
    | nil =>
      have hhead := hm [] x after (by simpa using hafter.symm)
      simpa [hbefore] using hhead
    | cons y more =>
      obtain ⟨rfl, -⟩ := List.cons_eq_cons.mp hafter
      exact hl before x more hbefore

theorem throughout_single {P : List α → α → Prop} {x : α} (h : P [] x) : Throughout P [x] := by
  intro before y after heq
  cases before with
  | nil =>
    obtain ⟨rfl, -⟩ := List.cons_eq_cons.mp heq
    exact h
  | cons z before => simp at heq

theorem throughout_pair {P : List α → α → Prop} {x y : α} (hx : P [] x) (hy : P [x] y) :
    Throughout P [x, y] :=
  (throughout_single hx).append (throughout_single hy)

end

/-- An error of the source goes straight to the client that asked. -/
def Passed (events : List (Event ι)) : Prop :=
  ∀ before i url e after, events = before ++ .asked i url (.error e) :: after →
    after.head? = some (.returned i url (.error e))

theorem Passed.append {events more : List (Event ι)} (h : Passed events) (hmore : Passed more) :
    Passed (events ++ more) := by
  intro before i url e after heq
  rcases List.append_eq_append_iff.mp heq with ⟨rest, hbefore, hafter⟩ | ⟨rest, hbefore, hafter⟩
  · exact hmore rest i url e after hafter
  · cases rest with
    | nil => exact hmore [] i url e after (by simpa using hafter.symm)
    | cons y rest =>
      obtain ⟨rfl, rfl⟩ := List.cons_eq_cons.mp hafter
      have hhead := h before i url e rest hbefore
      simp [hhead]

theorem passed_of_forall {events : List (Event ι)}
    (h : ∀ i url e, Event.asked i url (.error e) ∉ events) : Passed events := by
  intro before i url e after heq
  exact absurd (by simp [heq]) (h i url e)

def Event.answered? : Event ι → Option String
  | .asked _ url (.ok _) => some url
  | _ => none

def Event.clears : Event ι → Bool
  | .cleared => true
  | _ => false

/-- The addresses that the source answered with a body, in order. -/
def answered (events : List (Event ι)) : List String := events.filterMap Event.answered?

@[simp] theorem answered_append (events more : List (Event ι)) :
    answered (events ++ more) = answered events ++ answered more :=
  List.filterMap_append

/-- The events since the last clearing. -/
def since (events : List (Event ι)) : List (Event ι) := events.rtakeWhile fun e => !e.clears

theorem since_append {events more : List (Event ι)} (h : ∀ e ∈ more, e.clears = false) :
    since (events ++ more) = since events ++ more := by
  simp only [since, List.rtakeWhile, List.reverse_append]
  rw [List.takeWhile_append_of_pos]
  · simp
  · intro e he
    simp [h e (List.mem_reverse.mp he)]

/-- The source has not answered this address since the last clearing. -/
def Fresh (before : List (Event ι)) (e : Event ι) : Prop :=
  ∀ url, e.answered? = some url → url ∉ answered (since before)

theorem fresh_of_none {before : List (Event ι)} {e : Event ι} (h : e.answered? = none) :
    Fresh before e := by
  intro url hurl
  rw [h] at hurl
  cases hurl

theorem answered_nodup {events before mid after : List (Event ι)} (h : Throughout Fresh events)
    (heq : events = before ++ mid ++ after) (hmid : ∀ e ∈ mid, e.clears = false) :
    (answered mid).Nodup := by
  induction mid using List.reverseRecOn generalizing after with
  | nil => simp [answered]
  | append_singleton mid e ih =>
    have hmid' : ∀ e' ∈ mid, e'.clears = false :=
      fun e' he' => hmid e' (List.mem_append_left _ he')
    have heq' : events = (before ++ mid) ++ e :: after := by simpa using heq
    have hnodup : (answered mid).Nodup := ih heq' hmid'
    have hfresh := h (before ++ mid) e after heq'
    rw [Fresh, since_append hmid'] at hfresh
    cases hurl : e.answered? with
    | none =>
      have hnone : answered [e] = [] := List.filterMap_cons_none hurl
      rwa [answered_append, hnone, List.append_nil]
    | some url =>
      have hone : answered [e] = [url] := List.filterMap_cons_some hurl
      have hnew : url ∉ answered mid := by
        intro hold
        exact hfresh url hurl (answered_append _ _ ▸ List.mem_append_right _ hold)
      rw [answered_append, hone]
      exact hnodup.append (List.nodup_singleton url) (by simpa using hnew)

/-! What is kept -/

theorem lookUp_store (c : Cache) (url body url' : String) :
    (c.store url body).lookUp url' = if url' = url then some body else c.lookUp url' := by
  rw [Cache.lookUp, Cache.store, Lookup.lookup_cons, Lookup.lookup_filter, Cache.lookUp]
  by_cases hsame : url' = url
  · rw [if_pos hsame, if_pos hsame]
  · rw [if_neg hsame, if_neg hsame, if_neg hsame]

/-- What becomes of a cache at an event. -/
def noted (c : Cache) : Event ι → Cache
  | .stored _ url body => c.store url body
  | .cleared => c.clear
  | _ => c

/-- What is in a cache after these events. -/
def replay (events : List (Event ι)) : Cache := events.foldl noted {}

theorem replay_append (events more : List (Event ι)) :
    replay (events ++ more) = more.foldl noted (replay events) :=
  List.foldl_append

/-! Steps -/

variable [DecidableEq ι]

def World.turn (w : World ι σ) (i : ι) (p : Phase) : World ι σ :=
  { w with phase := Function.update w.phase i p }

/-- One step. A client can only take the step its phase allows, anything else changes nothing. -/
def step (source : Source σ) (w : World ι σ) : Act ι σ → List (Event ι) × World ι σ
  | .lookUp i url =>
    match w.phase i with
    | .idle =>
      match w.cache.lookUp url with
      | some body => ([.returned i url (.ok body)], w)
      | none => ([], w.turn i (.missed url))
    | _ => ([], w)
  | .ask i =>
    match w.phase i with
    | .missed url =>
      let reply := source url w.inner
      let w := { w with inner := reply.state }
      match reply.answer with
      | .ok body => ([.asked i url (.ok body)], w.turn i (.holding url body))
      | .error e => ([.asked i url (.error e), .returned i url (.error e)], w.turn i .idle)
    | _ => ([], w)
  | .store i =>
    match w.phase i with
    | .holding url body =>
      ([.stored i url body, .returned i url (.ok body)],
        { w with cache := w.cache.store url body }.turn i .idle)
    | _ => ([], w)
  | .clear => ([.cleared], { w with cache := w.cache.clear })
  | .drift inner => ([], { w with inner })

def run (source : Source σ) : List (Act ι σ) → World ι σ → List (Event ι) × World ι σ
  | [], w => ([], w)
  | act :: acts, w =>
    let (events, w) := step source w act
    let (more, w) := run source acts w
    (events ++ more, w)

/-- The steps that a step can be. -/
inductive Stepped (source : Source σ) (w : World ι σ) :
    Act ι σ → List (Event ι) → World ι σ → Prop
  | found (i : ι) (url body : String) (hphase : w.phase i = .idle)
      (hkept : w.cache.lookUp url = some body) :
      Stepped source w (.lookUp i url) [.returned i url (.ok body)] w
  | missed (i : ι) (url : String) (hphase : w.phase i = .idle)
      (hkept : w.cache.lookUp url = none) :
      Stepped source w (.lookUp i url) [] (w.turn i (.missed url))
  | answered (i : ι) (url body : String) (hphase : w.phase i = .missed url)
      (hanswer : (source url w.inner).answer = .ok body) :
      Stepped source w (.ask i) [.asked i url (.ok body)]
        ({ w with inner := (source url w.inner).state }.turn i (.holding url body))
  | refused (i : ι) (url : String) (e : Error) (hphase : w.phase i = .missed url)
      (hanswer : (source url w.inner).answer = .error e) :
      Stepped source w (.ask i) [.asked i url (.error e), .returned i url (.error e)]
        ({ w with inner := (source url w.inner).state }.turn i .idle)
  | stored (i : ι) (url body : String) (hphase : w.phase i = .holding url body) :
      Stepped source w (.store i) [.stored i url body, .returned i url (.ok body)]
        ({ w with cache := w.cache.store url body }.turn i .idle)
  | cleared : Stepped source w .clear [.cleared] { w with cache := w.cache.clear }
  | drifted (inner : σ) : Stepped source w (.drift inner) [] { w with inner }
  | none (act : Act ι σ) : Stepped source w act [] w

theorem stepped (source : Source σ) (w : World ι σ) (act : Act ι σ) :
    Stepped source w act (step source w act).1 (step source w act).2 := by
  cases act with
  | lookUp i url =>
    cases hphase : w.phase i with
    | idle =>
      cases hkept : w.cache.lookUp url with
      | some body =>
        simp only [step, hphase, hkept]
        exact .found i url body hphase hkept
      | none =>
        simp only [step, hphase, hkept]
        exact .missed i url hphase hkept
    | missed url' =>
      simp only [step, hphase]
      exact .none _
    | holding url' body =>
      simp only [step, hphase]
      exact .none _
  | ask i =>
    cases hphase : w.phase i with
    | idle =>
      simp only [step, hphase]
      exact .none _
    | missed url =>
      cases hanswer : (source url w.inner).answer with
      | ok body =>
        simp only [step, hphase, hanswer]
        exact .answered i url body hphase hanswer
      | error e =>
        simp only [step, hphase, hanswer]
        exact .refused i url e hphase hanswer
    | holding url body =>
      simp only [step, hphase]
      exact .none _
  | store i =>
    cases hphase : w.phase i with
    | idle =>
      simp only [step, hphase]
      exact .none _
    | missed url =>
      simp only [step, hphase]
      exact .none _
    | holding url body =>
      simp only [step, hphase]
      exact .stored i url body hphase
  | clear => exact .cleared
  | drift inner => exact .drifted inner

theorem Stepped.phase_of_other {source : Source σ} {w w' : World ι σ} {act : Act ι σ}
    {events : List (Event ι)} (h : Stepped source w act events w') {me : ι}
    (hother : act.client? ≠ some me) :
    w'.phase me = w.phase me := by
  have hne {i : ι} (hi : act.client? = some i) : me ≠ i := fun hsame => hother (hsame ▸ hi)
  cases h with
  | found i url body hphase hkept => rfl
  | missed i url hphase hkept => exact Function.update_of_ne (hne rfl) _ _
  | answered i url body hphase hanswer => exact Function.update_of_ne (hne rfl) _ _
  | refused i url e hphase hanswer => exact Function.update_of_ne (hne rfl) _ _
  | stored i url body hphase => exact Function.update_of_ne (hne rfl) _ _
  | cleared => rfl
  | drifted inner => rfl
  | none act => rfl

theorem run_cons (source : Source σ) (act : Act ι σ) (acts : List (Act ι σ)) (w : World ι σ) :
    run source (act :: acts) w =
      ((step source w act).1 ++ (run source acts (step source w act).2).1,
        (run source acts (step source w act).2).2) := rfl

theorem run_append (source : Source σ) (acts more : List (Act ι σ)) (w : World ι σ) :
    run source (acts ++ more) w =
      ((run source acts w).1 ++ (run source more (run source acts w).2).1,
        (run source more (run source acts w).2).2) := by
  induction acts generalizing w with
  | nil => rfl
  | cons act acts ih => simp only [List.cons_append, run_cons, ih, List.append_assoc]

/-- What each step keeps holds after any run. -/
theorem run_induction {source : Source σ} {P : List (Event ι) → World ι σ → Prop}
    (hstep : ∀ events w act events' w', P events w → Stepped source w act events' w' →
      P (events ++ events') w')
    (acts : List (Act ι σ)) (events : List (Event ι)) (w : World ι σ) (h : P events w) :
    P (events ++ (run source acts w).1) (run source acts w).2 := by
  induction acts generalizing events w with
  | nil => simpa [run] using h
  | cons act acts ih =>
    rw [run_cons, ← List.append_assoc]
    exact ih _ _ (hstep _ _ _ _ _ h (stepped source w act))

/-! The books -/

/-- The last event of a client. -/
def last (i : ι) (events : List (Event ι)) : Option (Event ι) :=
  (events.filter fun e => e.client? = some i).getLast?

theorem last_append (i : ι) (events more : List (Event ι)) :
    last i (events ++ more) = (last i more).or (last i events) := by
  simp only [last, List.filter_append, List.getLast?_append]

theorem last_mem {i : ι} {events : List (Event ι)} {e : Event ι} (h : last i events = some e) :
    e ∈ events :=
  List.mem_of_mem_filter (List.mem_of_getLast? h)

/-- What must have come before an event. A body was an answer for the same address, an error was the
answer to the client itself just now, and what a client stores is the answer it got last. -/
def Grounded (before : List (Event ι)) : Event ι → Prop
  | .asked .. => True
  | .stored i url body => last i before = some (.asked i url (.ok body))
  | .returned _ url (.ok body) => ∃ j, .asked j url (.ok body) ∈ before
  | .returned i url (.error e) => before.getLast? = some (.asked i url (.error e))
  | .cleared => True

/-- The world agrees with all that was told of it. -/
structure Told (events : List (Event ι)) (w : World ι σ) : Prop where
  grounded : Throughout Grounded events
  passed : Passed events
  cache : w.cache = replay events
  held : ∀ i url body, w.phase i = .holding url body →
    last i events = some (.asked i url (.ok body))
  kept : ∀ url body, w.cache.lookUp url = some body → ∃ i, .asked i url (.ok body) ∈ events

/-- A client that moves on keeps the books of all in order, if the events are its own. -/
theorem Told.held_turn {events more : List (Event ι)} {w w' : World ι σ} (h : Told events w) {i : ι}
    {p : Phase} (hown : ∀ e ∈ more, e.client? = some i)
    (hself : ∀ url body, p = .holding url body → last i more = some (.asked i url (.ok body)))
    (hphase : w'.phase = Function.update w.phase i p) (k : ι) (url body : String)
    (hholding : w'.phase k = .holding url body) :
    last k (events ++ more) = some (.asked k url (.ok body)) := by
  rw [hphase] at hholding
  rw [last_append]
  by_cases hk : k = i
  · subst hk
    rw [Function.update_self] at hholding
    rw [hself url body hholding, Option.some_or]
  · rw [Function.update_of_ne hk] at hholding
    have hnone : last k more = none := by
      have hfilter : more.filter (fun e => e.client? = some k) = [] := by
        refine List.filter_eq_nil_iff.mpr fun e he => ?_
        rw [hown e he]
        simpa using fun heq => hk heq.symm
      simp [last, hfilter]
    rw [hnone, Option.none_or]
    exact h.held k url body hholding

theorem Told.step {source : Source σ} {events events' : List (Event ι)} {w w' : World ι σ}
    {act : Act ι σ} (h : Told events w) (hstep : Stepped source w act events' w') :
    Told (events ++ events') w' := by
  have hmem {e : Event ι} (he : e ∈ events) : e ∈ events ++ events' := List.mem_append_left _ he
  cases hstep with
  | found i url body hphase hkept =>
    refine ⟨h.grounded.append (throughout_single ?_), h.passed.append ?_, ?_, ?_, ?_⟩
    · rw [List.append_nil]
      exact h.kept url body hkept
    · exact passed_of_forall (by simp)
    · rw [replay_append, h.cache]
      rfl
    · refine h.held_turn (i := i) (p := .idle) (by simp [Event.client?]) (by simp) ?_
      rw [← hphase, Function.update_eq_self]
    · intro url' body' hkept'
      obtain ⟨j, hj⟩ := h.kept url' body' hkept'
      exact ⟨j, hmem hj⟩
  | missed i url hphase hkept =>
    rw [List.append_nil]
    refine ⟨h.grounded, h.passed, h.cache, ?_, h.kept⟩
    have hnone : ∀ e ∈ ([] : List (Event ι)), e.client? = some i := nofun
    have hheld := h.held_turn (p := .missed url) hnone (by simp) (rfl : (w.turn i _).phase = _)
    simpa using hheld
  | answered i url body hphase hanswer =>
    refine ⟨h.grounded.append (throughout_single trivial), h.passed.append ?_, ?_, ?_, ?_⟩
    · exact passed_of_forall (by simp)
    · rw [replay_append]
      exact h.cache
    · refine h.held_turn (i := i) (p := .holding url body) (by simp [Event.client?]) ?_ rfl
      intro url' body' hsame
      obtain ⟨rfl, rfl⟩ := Phase.holding.inj hsame
      simp [last, Event.client?]
    · intro url' body' hkept'
      obtain ⟨j, hj⟩ := h.kept url' body' hkept'
      exact ⟨j, hmem hj⟩
  | refused i url e hphase hanswer =>
    refine ⟨h.grounded.append (throughout_pair trivial ?_), h.passed.append ?_, ?_, ?_, ?_⟩
    · simp [Grounded]
    · intro before j url' e' after heq
      cases before with
      | nil =>
        obtain ⟨hfirst, rfl⟩ := List.cons_eq_cons.mp heq
        obtain ⟨rfl, rfl, herror⟩ := Event.asked.inj hfirst
        rw [Except.error.inj herror]
        rfl
      | cons first before =>
        obtain ⟨_, hrest⟩ := List.cons_eq_cons.mp heq
        cases before <;> simp at hrest
    · rw [replay_append]
      exact h.cache
    · exact h.held_turn (i := i) (p := .idle) (by simp [Event.client?]) (by simp) rfl
    · intro url' body' hkept'
      obtain ⟨j, hj⟩ := h.kept url' body' hkept'
      exact ⟨j, hmem hj⟩
  | stored i url body hphase =>
    have hlast := h.held i url body hphase
    have hasked := last_mem hlast
    refine ⟨h.grounded.append (throughout_pair ?_ ?_), h.passed.append ?_, ?_, ?_, ?_⟩
    · rw [List.append_nil]
      exact hlast
    · exact ⟨i, List.mem_append_left _ hasked⟩
    · exact passed_of_forall (by simp)
    · rw [replay_append, ← h.cache]
      rfl
    · exact h.held_turn (i := i) (p := .idle) (by simp [Event.client?]) (by simp) rfl
    · intro url' body' hkept'
      change (w.cache.store url body).lookUp url' = some body' at hkept'
      rw [lookUp_store] at hkept'
      by_cases hsame : url' = url
      · rw [if_pos hsame] at hkept'
        rw [hsame, ← Option.some.inj hkept']
        exact ⟨i, hmem hasked⟩
      · rw [if_neg hsame] at hkept'
        obtain ⟨j, hj⟩ := h.kept url' body' hkept'
        exact ⟨j, hmem hj⟩
  | cleared =>
    refine ⟨h.grounded.append (throughout_single trivial), h.passed.append ?_, ?_, ?_, ?_⟩
    · exact passed_of_forall (by simp)
    · rw [replay_append, ← h.cache]
      rfl
    · intro i url body hholding
      rw [last_append, h.held i url body hholding]
      rfl
    · intro url body hkept
      cases hkept
  | drifted inner =>
    rw [List.append_nil]
    exact ⟨h.grounded, h.passed, h.cache, h.held, h.kept⟩
  | none act =>
    rw [List.append_nil]
    exact h

theorem told_run (source : Source σ) (acts : List (Act ι σ)) (inner : σ) :
    Told (run source acts ({ inner } : World ι σ)).1 (run source acts { inner }).2 := by
  have hnew : Told [] ({ inner } : World ι σ) :=
    { grounded := throughout_nil _
      passed := passed_of_forall (by simp)
      cache := rfl
      held := by simp
      kept := by simp [Cache.lookUp] }
  simpa using run_induction (fun _ _ _ _ _ h hstep => h.step hstep) acts [] _ hnew

/-! Calls that do not overlap -/

/-- A fetch as a whole, or what others may do when no fetch is under way. -/
inductive Visit (ι σ : Type) where
  | fetch (client : ι) (url : String)
  | clear
  | drift (inner : σ)

def Visit.acts : Visit ι σ → List (Act ι σ)
  | .fetch i url => [.lookUp i url, .ask i, .store i]
  | .clear => [.clear]
  | .drift inner => [.drift inner]

/-- All that a visit can be, if the client is not in a fetch yet. -/
inductive Visited (source : Source σ) (w : World ι σ) :
    Visit ι σ → List (Event ι) → World ι σ → Prop
  | found (i : ι) (url body : String) (hkept : w.cache.lookUp url = some body) :
      Visited source w (.fetch i url) [.returned i url (.ok body)] w
  | answered (i : ι) (url body : String) (hkept : w.cache.lookUp url = none)
      (hanswer : (source url w.inner).answer = .ok body) :
      Visited source w (.fetch i url)
        [.asked i url (.ok body), .stored i url body, .returned i url (.ok body)]
        { w with cache := w.cache.store url body, inner := (source url w.inner).state }
  | refused (i : ι) (url : String) (e : Error) (hkept : w.cache.lookUp url = none)
      (hanswer : (source url w.inner).answer = .error e) :
      Visited source w (.fetch i url) [.asked i url (.error e), .returned i url (.error e)]
        { w with inner := (source url w.inner).state }
  | cleared : Visited source w .clear [.cleared] { w with cache := w.cache.clear }
  | drifted (inner : σ) : Visited source w (.drift inner) [] { w with inner }

theorem visited_fetch (source : Source σ) {w : World ι σ} {i : ι} (hidle : w.phase i = .idle)
    (url : String) :
    Visited source w (.fetch i url) (run source (Visit.fetch i url).acts w).1
      (run source (Visit.fetch i url).acts w).2 := by
  have hback : Function.update w.phase i .idle = w.phase := by
    rw [Function.update_eq_self_iff, hidle]
  cases hkept : w.cache.lookUp url with
  | some body =>
    simp only [Visit.acts, run, step, hidle, hkept]
    exact .found i url body hkept
  | none =>
    cases hanswer : (source url w.inner).answer with
    | ok body =>
      simp only [Visit.acts, run, step, hidle, hkept, World.turn, Function.update_self, hanswer,
        Function.update_idem, hback]
      exact .answered i url body hkept hanswer
    | error e =>
      simp only [Visit.acts, run, step, hidle, hkept, World.turn, Function.update_self, hanswer,
        Function.update_idem, hback]
      exact .refused i url e hkept hanswer

theorem visited (source : Source σ) {w : World ι σ} (hidle : w.phase = fun _ => .idle)
    (v : Visit ι σ) :
    Visited source w v (run source v.acts w).1 (run source v.acts w).2 := by
  cases v with
  | fetch i url => exact visited_fetch source (congrFun hidle i) url
  | clear => exact .cleared
  | drift inner => exact .drifted inner

/-- Between visits the addresses that are kept are those answered since the last clearing. -/
structure Tallied (events : List (Event ι)) (w : World ι σ) : Prop where
  idle : w.phase = fun _ => .idle
  fresh : Throughout Fresh events
  keys : w.cache.entries.map Prod.fst = (answered (since events)).reverse

theorem not_mem_of_lookUp {c : Cache} {url : String} (h : c.lookUp url = none) :
    url ∉ c.entries.map Prod.fst := by
  intro hmem
  obtain ⟨entry, hentry, rfl⟩ := List.mem_map.mp hmem
  have := List.lookup_eq_none_iff.mp h entry hentry
  simp at this

theorem store_keys {c : Cache} {url : String} (body : String)
    (h : url ∉ c.entries.map Prod.fst) :
    (c.store url body).entries.map Prod.fst = url :: c.entries.map Prod.fst := by
  have hall : c.entries.filter (fun entry => entry.1 != url) = c.entries := by
    refine List.filter_eq_self.mpr fun entry hentry => ?_
    simp only [bne_iff_ne, ne_eq]
    intro hsame
    exact h (List.mem_map.mpr ⟨entry, hentry, hsame⟩)
  simp only [Cache.store, hall, List.map_cons]

omit [DecidableEq ι] in
theorem Tallied.visit {source : Source σ} {events events' : List (Event ι)} {w w' : World ι σ}
    {v : Visit ι σ} (h : Tallied events w) (hvisit : Visited source w v events' w') :
    Tallied (events ++ events') w' := by
  cases hvisit with
  | found i url body hkept =>
    refine ⟨h.idle, h.fresh.append (throughout_single (fresh_of_none rfl)), ?_⟩
    rw [since_append (by simp [Event.clears]), answered_append, h.keys]
    simp [answered, Event.answered?]
  | answered i url body hkept hanswer =>
    have hmiss := not_mem_of_lookUp hkept
    have hnew : url ∉ answered (since events) := by
      rw [h.keys, List.mem_reverse] at hmiss
      exact hmiss
    refine ⟨h.idle, h.fresh.append ?_, ?_⟩
    · refine (throughout_single ?_).append
        (throughout_pair (fresh_of_none rfl) (fresh_of_none rfl))
      intro url' hurl'
      rw [List.append_nil, ← Option.some.inj hurl']
      exact hnew
    · rw [since_append (by simp [Event.clears]), store_keys body hmiss, h.keys]
      simp [answered, Event.answered?]
  | refused i url e hkept hanswer =>
    refine ⟨h.idle, h.fresh.append (throughout_pair (fresh_of_none rfl) (fresh_of_none rfl)), ?_⟩
    rw [since_append (by simp [Event.clears]), answered_append, h.keys]
    simp [answered, Event.answered?]
  | cleared =>
    refine ⟨h.idle, h.fresh.append (throughout_single (fresh_of_none rfl)), ?_⟩
    simp [since, Event.clears, Cache.clear, answered]
  | drifted inner =>
    rw [List.append_nil]
    exact ⟨h.idle, h.fresh, h.keys⟩

theorem tallied_run (source : Source σ) (visits : List (Visit ι σ)) (inner : σ) :
    Tallied (run source (visits.flatMap Visit.acts) ({ inner } : World ι σ)).1
      (run source (visits.flatMap Visit.acts) { inner }).2 := by
  suffices h : ∀ (events : List (Event ι)) (w : World ι σ), Tallied events w →
      Tallied (events ++ (run source (visits.flatMap Visit.acts) w).1)
        (run source (visits.flatMap Visit.acts) w).2 by
    have hnew : Tallied [] ({ inner } : World ι σ) := ⟨rfl, throughout_nil _, rfl⟩
    simpa using h [] _ hnew
  induction visits with
  | nil =>
    intro events w h
    simpa [run] using h
  | cons v visits ih =>
    intro events w h
    rw [List.flatMap_cons, run_append, ← List.append_assoc]
    exact ih _ _ (h.visit (visited source h.idle v))

omit [DecidableEq ι] in
theorem Tallied.size {events : List (Event ι)} {w : World ι σ} (h : Tallied events w) :
    w.cache.size = (answered (since events)).toFinset.card := by
  have hsplit : events = (events.rdropWhile fun e => !e.clears) ++ since events ++ [] := by
    rw [List.append_nil]
    exact List.rdropWhile_append_rtakeWhile.symm
  have hclear : ∀ e ∈ since events, e.clears = false := by
    intro e he
    simpa using List.mem_rtakeWhile_imp he
  rw [List.toFinset_card_of_nodup (answered_nodup h.fresh hsplit hclear), Cache.size,
    ← List.length_map (f := Prod.fst), h.keys, List.length_reverse]

end Harvest.Sharing
