import Harvest.Proofs.Indifference
import Harvest.Proofs.Sharing

/-!
A cache in front of a source with fixed answers. Whatever several clients do with it at the same
time, each of them gets what the source answers. So a cursor or a harvester cannot tell the cache
from the source, neither when it has the cache for itself nor when others go on between its steps.
-/
namespace Harvest.Transparency

open Observation Indifference Sharing

variable {ι σ : Type} {answers : String → Except Error String} {source : Source σ}

/-! A source with fixed answers -/

/-- All that the cache or a client holds is what the source answers. -/
structure Correct (answers : String → Except Error String) (w : World ι σ) : Prop where
  kept : ∀ url body, w.cache.lookUp url = some body → answers url = .ok body
  held : ∀ i url body, w.phase i = .holding url body → answers url = .ok body

theorem correct_new (answers : String → Except Error String) (inner : σ) :
    Correct answers ({ inner } : World ι σ) where
  kept := by simp [Cache.lookUp]
  held := by simp

variable [DecidableEq ι]

theorem Correct.held_update {w : World ι σ} (h : Correct answers w) {p : Phase}
    (hp : ∀ url body, p = .holding url body → answers url = .ok body) (i k : ι) (url body : String)
    (hholding : Function.update w.phase i p k = .holding url body) : answers url = .ok body := by
  by_cases hk : k = i
  · subst hk
    rw [Function.update_self] at hholding
    exact hp url body hholding
  · rw [Function.update_of_ne hk] at hholding
    exact h.held k url body hholding

theorem Correct.step (hanswers : ∀ url state, (source url state).answer = answers url)
    {w w' : World ι σ} {act : Act ι σ} {events : List (Event ι)} (h : Correct answers w)
    (hstep : Stepped source w act events w') :
    Correct answers w' ∧ ∀ i url a, .returned i url a ∈ events → a = answers url := by
  cases hstep with
  | found i url body hphase hkept =>
    refine ⟨h, fun j url' a hmem => ?_⟩
    obtain ⟨rfl, rfl, rfl⟩ := Event.returned.inj (List.mem_singleton.mp hmem)
    exact (h.kept _ _ hkept).symm
  | missed i url hphase hkept => exact ⟨⟨h.kept, h.held_update (by simp) i⟩, by simp⟩
  | answered i url body hphase hanswer =>
    refine ⟨⟨h.kept, h.held_update ?_ i⟩, by simp⟩
    intro url' body' hsame
    obtain ⟨rfl, rfl⟩ := Phase.holding.inj hsame
    rw [← hanswer, hanswers]
  | refused i url e hphase hanswer =>
    refine ⟨⟨h.kept, h.held_update (by simp) i⟩, fun j url' a hmem => ?_⟩
    simp only [List.mem_cons, List.not_mem_nil, or_false, reduceCtorEq, false_or] at hmem
    obtain ⟨rfl, rfl, rfl⟩ := Event.returned.inj hmem
    rw [← hanswer, hanswers]
  | stored i url body hphase =>
    have hbody := h.held i url body hphase
    refine ⟨⟨fun url' body' hkept => ?_, h.held_update (by simp) i⟩, fun j url' a hmem => ?_⟩
    · change (w.cache.store url body).lookUp url' = some body' at hkept
      rw [lookUp_store] at hkept
      by_cases hsame : url' = url
      · rw [if_pos hsame] at hkept
        rw [hsame, hbody, Option.some.inj hkept]
      · rw [if_neg hsame] at hkept
        exact h.kept url' body' hkept
    · simp only [List.mem_cons, List.not_mem_nil, or_false, reduceCtorEq, false_or] at hmem
      obtain ⟨rfl, rfl, rfl⟩ := Event.returned.inj hmem
      exact hbody.symm
  | cleared => exact ⟨⟨by simp [Cache.clear, Cache.lookUp], h.held⟩, by simp⟩
  | drifted inner => exact ⟨⟨h.kept, h.held⟩, by simp⟩
  | none act => exact ⟨h, by simp⟩

/-- Every client gets what the source answers, whatever the others do. -/
theorem Correct.run (hanswers : ∀ url state, (source url state).answer = answers url)
    (acts : List (Act ι σ)) {w : World ι σ} (h : Correct answers w) :
    Correct answers (run source acts w).2 ∧
      ∀ i url a, .returned i url a ∈ (run source acts w).1 → a = answers url := by
  let P (events : List (Event ι)) (w : World ι σ) : Prop :=
    Correct answers w ∧ ∀ i url a, .returned i url a ∈ events → a = answers url
  have hstep : ∀ events (w : World ι σ) act events' w', P events w →
      Stepped source w act events' w' → P (events ++ events') w' := by
    intro events w act events' w' ⟨hw, hold⟩ hstep
    obtain ⟨hw', hnew⟩ := hw.step hanswers hstep
    refine ⟨hw', fun i url a hmem => ?_⟩
    rcases List.mem_append.mp hmem with hmem | hmem
    · exact hold i url a hmem
    · exact hnew i url a hmem
  have hall := run_induction hstep acts [] w ⟨h, by simp⟩
  rwa [List.nil_append] at hall

/-! A client among others -/

/-- The acts that are not those of one client. -/
def others (me : ι) (acts : List (Act ι σ)) : List (Act ι σ) :=
  acts.filter fun act => act.client? ≠ some me

/-- What goes on around a fetch: before it, after the address was missed, while there is a body to
store, and after it. Meanwhile the abort flag of the client may be raised. -/
structure Slot (ι σ : Type) where
  before : List (Act ι σ) := []
  missed : List (Act ι σ) := []
  holding : List (Act ι σ) := []
  after : List (Act ι σ) := []
  raised : Bool := false

def Slot.acts (slot : Slot ι σ) (me : ι) (url : String) : List (Act ι σ) :=
  others me slot.before ++ .lookUp me url :: (others me slot.missed ++ .ask me ::
    (others me slot.holding ++ .store me :: others me slot.after))

/-- What a client got for an address. -/
def answerTo (me : ι) (url : String) : Event ι → Option (Except Error String)
  | .returned i url' a => if i = me ∧ url' = url then some a else none
  | _ => none

/-- The cache as a source for one of its clients. The others do what is planned for each fetch, and
nothing beyond the plan. There always is an answer. -/
def amid (source : Source σ) (me : ι) : Source (World ι σ × List (Slot ι σ)) := fun url (w, plan) =>
  let slot := plan.headD {}
  let (events, w) := run source (slot.acts me url) w
  { answer := (events.findSome? (answerTo me url)).getD (.ok ""),
    state := (w, plan.tail),
    raised := slot.raised }

/-- The source with fixed answers, and the abort flag raised during some of the requests. -/
def interrupted (answers : String → Except Error String) : Source (List Bool) := fun url flags =>
  { answer := answers url, state := flags.tail, raised := flags.headD false }

theorem run_others (source : Source σ) (me : ι) (acts : List (Act ι σ)) (w : World ι σ) :
    (run source (others me acts) w).2.phase me = w.phase me := by
  induction acts generalizing w with
  | nil => rfl
  | cons act acts ih =>
    by_cases hact : act.client? = some me
    · rw [others, List.filter_cons_of_neg (by simpa using hact)]
      exact ih w
    · rw [others, List.filter_cons_of_pos (by simpa using hact), run_cons]
      exact (ih _).trans ((stepped source w act).phase_of_other hact)

/-! The three steps of a fetch -/

/-- The client has got its answer and is not in a fetch any more. -/
def Done (me : ι) (url : String) (events : List (Event ι)) (w : World ι σ) : Prop :=
  w.phase me = .idle ∧ ∃ a, .returned me url a ∈ events

theorem lookUp_done_or_missed (source : Source σ) {w : World ι σ} {me : ι} (url : String)
    (hidle : w.phase me = .idle) :
    Done me url (step source w (.lookUp me url)).1 (step source w (.lookUp me url)).2 ∨
      (step source w (.lookUp me url)).2.phase me = .missed url := by
  cases hkept : w.cache.lookUp url with
  | some body =>
    simp only [step, hidle, hkept]
    exact Or.inl ⟨hidle, _, List.mem_singleton_self _⟩
  | none =>
    simp only [step, hidle, hkept]
    exact Or.inr (Function.update_self _ _ _)

theorem ask_done_or_holding (source : Source σ) {w : World ι σ} {me : ι} {url : String}
    (hmissed : w.phase me = .missed url) :
    Done me url (step source w (.ask me)).1 (step source w (.ask me)).2 ∨
      ∃ body, (step source w (.ask me)).2.phase me = .holding url body := by
  cases hanswer : (source url w.inner).answer with
  | ok body =>
    simp only [step, hmissed, hanswer]
    exact Or.inr ⟨body, Function.update_self _ _ _⟩
  | error e =>
    simp only [step, hmissed, hanswer]
    exact Or.inl ⟨Function.update_self _ _ _, .error e, by simp⟩

theorem store_done (source : Source σ) {w : World ι σ} {me : ι} {url body : String}
    (hholding : w.phase me = .holding url body) :
    Done me url (step source w (.store me)).1 (step source w (.store me)).2 := by
  simp only [step, hholding]
  exact ⟨Function.update_self _ _ _, .ok body, by simp⟩

theorem ask_idle (source : Source σ) {w : World ι σ} {me : ι} (hidle : w.phase me = .idle) :
    step source w (.ask me) = ([], w) := by
  simp only [step, hidle]

theorem store_idle (source : Source σ) {w : World ι σ} {me : ι} (hidle : w.phase me = .idle) :
    step source w (.store me) = ([], w) := by
  simp only [step, hidle]

/-- A fetch always comes to an answer, and then it is over. -/
theorem fetch_done (source : Source σ) {w : World ι σ} {me : ι} (url : String) (slot : Slot ι σ)
    (hidle : w.phase me = .idle) :
    Done me url (run source (slot.acts me url) w).1 (run source (slot.acts me url) w).2 := by
  have hothers := run_others source me
  simp only [Slot.acts, run_append, run_cons]
  generalize hw₁ : (run source (others me slot.before) w).2 = w₁
  have hphase₁ : w₁.phase me = .idle := by rw [← hw₁, hothers, hidle]
  have hlookUp := lookUp_done_or_missed source url hphase₁
  generalize (step source w₁ (.lookUp me url)).1 = events₁ at hlookUp ⊢
  generalize (step source w₁ (.lookUp me url)).2 = w₂ at hlookUp ⊢
  generalize hw₃ : (run source (others me slot.missed) w₂).2 = w₃
  have hphase₃ : w₃.phase me = w₂.phase me := by rw [← hw₃, hothers]
  have hdone {w₄ : World ι σ} (hphase₄ : w₄.phase me = .idle) :
      (run source (others me slot.after) (step source (run source (others me slot.holding) w₄).2
        (.store me)).2).2.phase me = .idle := by
    rw [hothers, store_idle source (by rw [hothers, hphase₄]), hothers, hphase₄]
  rcases hlookUp with ⟨hphase₂, a, ha⟩ | hphase₂
  · rw [ask_idle source (hphase₃.trans hphase₂)]
    exact ⟨hdone (hphase₃.trans hphase₂), a, by simp [ha]⟩
  · have hask := ask_done_or_holding source (hphase₃.trans hphase₂)
    generalize (step source w₃ (.ask me)).1 = events₃ at hask ⊢
    generalize (step source w₃ (.ask me)).2 = w₄ at hask ⊢
    rcases hask with ⟨hphase₄, a, ha⟩ | ⟨body, hphase₄⟩
    · exact ⟨hdone hphase₄, a, by simp [ha]⟩
    · have hholding : (run source (others me slot.holding) w₄).2.phase me = .holding url body := by
        rw [hothers, hphase₄]
      obtain ⟨hphase₆, a, ha⟩ := store_done source hholding
      exact ⟨(hothers _ _).trans hphase₆, a, by simp [ha]⟩

/-! The cache seen by a client -/

theorem answerTo_returned {events : List (Event ι)} {me : ι} {url : String}
    {a : Except Error String} (hmem : .returned me url a ∈ events)
    (hall : ∀ a', .returned me url a' ∈ events → a' = a) :
    events.findSome? (answerTo me url) = some a := by
  cases hfound : events.findSome? (answerTo me url) with
  | none =>
    have := List.findSome?_eq_none_iff.mp hfound _ hmem
    simp [answerTo] at this
  | some a' =>
    obtain ⟨e, he, hanswer⟩ := List.exists_of_findSome?_eq_some hfound
    cases e with
    | returned i url' a'' =>
      simp only [answerTo, Option.ite_none_right_eq_some, Option.some.injEq] at hanswer
      obtain ⟨⟨rfl, rfl⟩, rfl⟩ := hanswer
      rw [hall _ he]
    | asked i url' a'' => cases hanswer
    | stored i url' body => cases hanswer
    | cleared => cases hanswer

theorem amid_alike (hanswers : ∀ url state, (source url state).answer = answers url) (me : ι) :
    Alike (fun (w, plan) flags =>
        Correct answers w ∧ w.phase me = .idle ∧ flags = plan.map Slot.raised)
      (amid source me) (interrupted answers) := by
  rintro url ⟨w, plan⟩ flags ⟨hcorrect, hidle, rfl⟩
  obtain ⟨hcorrect', htrue⟩ := hcorrect.run hanswers ((plan.headD {}).acts me url)
  obtain ⟨hidle', a, ha⟩ := fetch_done source url (plan.headD {}) hidle
  have hanswer := answerTo_returned ha fun a' ha' => (htrue _ _ _ ha').trans (htrue _ _ _ ha).symm
  refine ⟨?_, ?_, hcorrect', hidle', ?_⟩
  · simp only [amid, interrupted, hanswer, Option.getD_some]
    exact htrue _ _ _ ha
  · cases plan <;> rfl
  · cases plan <;> rfl

theorem inFront_alike (hanswers : ∀ url state, (source url state).answer = answers url)
    (hquiet : Quiet source) :
    Alike (fun (c, _) _ => ∀ url body, c.lookUp url = some body → answers url = .ok body)
      (Cache.inFront source) (.fixed answers) := by
  rintro url ⟨c, state⟩ - hkept
  cases hlookUp : c.lookUp url with
  | some body =>
    simp only [Cache.inFront, hlookUp, Source.fixed]
    exact ⟨(hkept url body hlookUp).symm, trivial, hkept⟩
  | none =>
    simp only [Cache.inFront, hlookUp, Source.fixed]
    refine ⟨hanswers url state, hquiet url state, fun url' body' hkept' => ?_⟩
    rw [hanswers] at hkept'
    cases hanswer : answers url with
    | error e =>
      rw [hanswer] at hkept'
      exact hkept url' body' hkept'
    | ok body =>
      rw [hanswer] at hkept'
      change (c.store url body).lookUp url' = some body' at hkept'
      rw [lookUp_store] at hkept'
      by_cases hsame : url' = url
      · rw [if_pos hsame] at hkept'
        rw [hsame, hanswer, Option.some.inj hkept']
      · rw [if_neg hsame] at hkept'
        exact hkept url' body' hkept'

/-- For a client alone the three steps are what the cache does at a request. -/
theorem alone_alike (hquiet : Quiet source) (me : ι) :
    Alike (fun (w, plan) (c, state) =>
        w.phase me = .idle ∧ plan = [] ∧ w.cache = c ∧ w.inner = state)
      (amid source me) (Cache.inFront source) := by
  rintro url ⟨w, plan⟩ ⟨c, state⟩ ⟨hidle, rfl, rfl, rfl⟩
  have hacts : Slot.acts ({} : Slot ι σ) me url = (Visit.fetch me url).acts := rfl
  have hvisit := visited_fetch source hidle url
  simp only [amid, List.headD_nil, hacts]
  generalize (run source (Visit.fetch me url).acts w).1 = events at hvisit ⊢
  generalize (run source (Visit.fetch me url).acts w).2 = w' at hvisit ⊢
  cases hvisit with
  | found i url body hkept =>
    refine ⟨?_, ?_, hidle, rfl, ?_, ?_⟩ <;> simp [Cache.inFront, hkept, answerTo]
  | answered i url body hkept hanswer =>
    have hraised := hquiet url w.inner
    refine ⟨?_, ?_, hidle, rfl, ?_, ?_⟩ <;>
      simp [Cache.inFront, Cache.keep, hkept, hanswer, hraised, List.findSome?_cons, answerTo]
  | refused i url e hkept hanswer =>
    have hraised := hquiet url w.inner
    refine ⟨?_, ?_, hidle, rfl, ?_, ?_⟩ <;>
      simp [Cache.inFront, Cache.keep, hkept, hanswer, hraised, List.findSome?_cons, answerTo]

/-- Whatever clients do with a cache, in whatever order they take their steps: a body that a client
gets is one that the source has answered to some client for this address before. An error is passed
on to the client that asked, and nowhere else; what a client stores is the body it got last, and the
cache is what was stored since the last clearing. If the fetches do not overlap, the source answers
each address with a body at most once between two clearings, and the cache has as many entries as
addresses were answered since the last one. A client alone has the source behind a cache for its
source. In front of a source with fixed answers the cache cannot be told from it, neither by a
client alone nor by one amid others. -/
theorem cache_transparent (source : Source σ) (inner : σ) :
    (∀ acts : List (Act ι σ),
      let (events, w) := run source acts { inner }
      (∀ before i url body after, events = before ++ .returned i url (.ok body) :: after →
        ∃ j, .asked j url (.ok body) ∈ before) ∧
      (∀ before i url e after, events = before ++ .returned i url (.error e) :: after →
        before.getLast? = some (.asked i url (.error e))) ∧
      (∀ before i url e after, events = before ++ .asked i url (.error e) :: after →
        after.head? = some (.returned i url (.error e))) ∧
      (∀ before i url body after, events = before ++ .stored i url body :: after →
        last i before = some (.asked i url (.ok body))) ∧
      w.cache = replay events ∧
      ∀ answers, (∀ url state, (source url state).answer = answers url) → Quiet source →
        Same (Cache.inFront source) (w.cache, w.inner) (.fixed answers) () ∧
        ∀ me plan, w.phase me = .idle →
          Same (amid source me) (w, plan) (interrupted answers) (plan.map Slot.raised)) ∧
    (Quiet source → ∀ me (w : World ι σ), w.phase me = .idle →
      Same (amid source me) (w, []) (Cache.inFront source) (w.cache, w.inner)) ∧
    ∀ visits : List (Visit ι σ),
      let (events, w) := run source (visits.flatMap Visit.acts) { inner }
      (∀ before mid after, events = before ++ mid ++ after → (∀ e ∈ mid, e.clears = false) →
        (answered mid).Nodup) ∧
      w.cache.size = (answered (since events)).toFinset.card := by
  refine ⟨?_, ?_, ?_⟩
  · intro acts
    have htold := told_run source acts inner
    refine ⟨?_, ?_, htold.passed, ?_, htold.cache, ?_⟩
    · intro before i url body after heq
      exact htold.grounded before _ after heq
    · intro before i url e after heq
      exact htold.grounded before _ after heq
    · intro before i url body after heq
      exact htold.grounded before _ after heq
    · intro answers hanswers hquiet
      have hcorrect := ((correct_new answers inner).run hanswers acts).1
      refine ⟨same_of_alike (inFront_alike hanswers hquiet) hcorrect.kept, ?_⟩
      intro me plan hidle
      exact same_of_alike (amid_alike hanswers me) ⟨hcorrect, hidle, rfl⟩
  · intro hquiet me w hidle
    exact same_of_alike (alone_alike hquiet me) ⟨hidle, rfl, rfl, rfl⟩
  · intro visits
    have htallied := tallied_run source visits inner
    refine ⟨?_, htallied.size⟩
    intro before mid after heq hmid
    exact answered_nodup htallied.fresh heq hmid

/-! Two clients -/

def pair (url : String) : Except Error String :=
  if url = "u" then .ok "x" else .error .malformedXml

/-- A source that counts the requests. -/
def counting : Source ℕ := fun url n => { answer := pair url, state := n + 1 }

/-- Both clients miss the same address, and the cache is cleared between their stores. -/
def crossing : List (Act Bool ℕ) :=
  [.lookUp false "u", .lookUp true "u", .ask false, .ask true, .store true, .clear, .store false,
    .lookUp true "v", .ask true]

theorem crossing_transparent :
    let (events, w) := run counting crossing { inner := 0 }
    events = [.asked false "u" (.ok "x"), .asked true "u" (.ok "x"), .stored true "u" "x",
      .returned true "u" (.ok "x"), .cleared, .stored false "u" "x", .returned false "u" (.ok "x"),
      .asked true "v" (.error .malformedXml), .returned true "v" (.error .malformedXml)] ∧
    w.cache = ⟨[("u", "x")]⟩ ∧ w.inner = 3 ∧ w.phase true = .idle ∧
    (∃ j, .asked j "u" (.ok "x") ∈ events.take 3) ∧
    Same (Cache.inFront counting) (w.cache, w.inner) (.fixed pair) () ∧
    Same (amid counting true) (w, [{ missed := crossing, raised := true }])
      (interrupted pair) [true] ∧
    Same (amid counting true) (w, []) (Cache.inFront counting) (w.cache, w.inner) ∧
    (answered [.asked false "u" (.ok "x"), .stored false "u" "x"]).Nodup ∧
    (run counting ([.fetch false "u", .fetch true "u", .fetch true "v"].flatMap Visit.acts)
      ({ inner := 0 } : World Bool ℕ)).2.cache.size = 1 := by
  obtain ⟨hsteps, halone, hvisits⟩ := cache_transparent (ι := Bool) counting 0
  obtain ⟨hbodies, -, -, -, -, hsame⟩ := hsteps crossing
  obtain ⟨hfront, hamid⟩ := hsame pair (fun _ _ => rfl) (fun _ _ => rfl)
  have hidle : (run counting crossing { inner := 0 }).2.phase true = .idle := by decide
  obtain ⟨hnodup, hsize⟩ := hvisits [.fetch false "u", .fetch true "u", .fetch true "v"]
  refine ⟨rfl, rfl, rfl, hidle, ?_, hfront, hamid true [_] hidle,
    halone (fun _ _ => rfl) true _ hidle,
    hnodup [] [.asked false "u" (.ok "x"), .stored false "u" "x"] _ rfl ?_, hsize.trans ?_⟩
  · exact hbodies _ true "u" "x" _ rfl
  · simp [Event.clears]
  · decide

end Harvest.Transparency
