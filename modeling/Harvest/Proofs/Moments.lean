import Harvest.Files.Plan
import Harvest.Proofs.Places
import Mathlib.Logic.Relation

/-!
Plans under way. A plan can be looked at between any two of its actions, and while a text is being
written. Any action can fail, be it that the tree refuses it or that something else is in the way;
`refuses` tells which failures there are. Rules for the parts that plans are made of show what holds
at every moment and what at the end.
-/
namespace Harvest.Files

/-- A step of a plan. -/
inductive Step (refuses : Tree → Action → IoError → Prop) : Plan × Tree → Plan × Tree → Prop
  | done {a : Action} {next : Except IoError Unit → Plan} {t t' : Tree} (h : t.perform a = .ok t') :
      Step refuses (.perform a next, t) (next (.ok ()), t')
  /-- An action that fails leaves the tree as it was. -/
  | failed {a : Action} {next : Except IoError Unit → Plan} {t : Tree} {e : IoError}
      (h : refuses t a e) : Step refuses (.perform a next, t) (next (.error e), t)
  /-- A text goes to a file piece by piece, and in between the file may hold anything. -/
  | writing {p : Path} {content part : String} {next : Except IoError Unit → Plan} {t t' : Tree}
      (h : t.write p part = .ok t') :
      Step refuses (.perform (.write p content) next, t) (.perform (.write p content) next, t')

/-- What can be seen of a plan: how much of it is left, and the tree. -/
abbrev Leads (refuses : Tree → Action → IoError → Prop) : Plan × Tree → Plan × Tree → Prop :=
  Relation.ReflTransGen (Step refuses)

/-- The failures that come from the tree alone. -/
def ownErrors (t : Tree) (a : Action) (e : IoError) : Prop := t.perform a = .error e

/-- A run goes through moments of its plan, to the end. -/
theorem leads_run (plan : Plan) (t : Tree) :
    Leads ownErrors (plan, t) (.finish (plan.run t).1, (plan.run t).2) := by
  induction plan generalizing t with
  | finish result => exact .refl
  | perform a next ih =>
    rw [Plan.run]
    cases h : t.perform a with
    | ok t' => exact .head (.done h) (ih (.ok ()) t')
    | error e => exact .head (.failed h) (ih (.error e) t)

/-- In a plan that starts on a tree with `pre`, `during` holds at every moment, and at the end
`post`. -/
def Holds (refuses : Tree → Action → IoError → Prop) (during pre : Tree → Prop) (plan : Plan)
    (post : Except IoError Unit → Tree → Prop) : Prop :=
  ∀ t, pre t → ∀ rest t', Leads refuses (plan, t) (rest, t') →
    during t' ∧ ∀ result, rest = .finish result → post result t'

section

variable {refuses : Tree → Action → IoError → Prop} {during pre mid : Tree → Prop}
  {post : Except IoError Unit → Tree → Prop} {next : Plan}

theorem Holds.weaken {pre' : Tree → Prop} {plan : Plan} (h : Holds refuses during pre plan post)
    (hpre : ∀ t, pre' t → pre t) : Holds refuses during pre' plan post :=
  fun t ht => h t (hpre t ht)

theorem holds_finish {result : Except IoError Unit} (hduring : ∀ t, pre t → during t)
    (hpost : ∀ t, pre t → post result t) : Holds refuses during pre (.finish result) post := by
  intro t hpre rest t' hleads
  rcases hleads.cases_head with heq | ⟨_, hstep, _⟩
  · cases heq
    refine ⟨hduring t hpre, ?_⟩
    rintro _ ⟨⟩
    exact hpost t hpre
  · cases hstep

/-- The rule for an action. What holds before it must not depend on the text of a file that is being
written. -/
theorem holds_perform {a : Action} {next : Except IoError Unit → Plan}
    (hduring : ∀ t, pre t → during t)
    (hwriting : ∀ p content part t t', a = .write p content → pre t → t.write p part = .ok t' →
      pre t')
    (hdone : ∀ t t', pre t → t.perform a = .ok t' → mid t')
    (hnext : Holds refuses during mid (next (.ok ())) post)
    (hfailed : ∀ e, Holds refuses during (fun t => pre t ∧ refuses t a e) (next (.error e)) post) :
    Holds refuses during pre (.perform a next) post := by
  intro t hpre rest t' hleads
  generalize hstart : ((Plan.perform a next, t) : Plan × Tree) = start at hleads
  induction hleads using Relation.ReflTransGen.head_induction_on generalizing t with
  | refl =>
    cases hstart
    exact ⟨hduring _ hpre, nofun⟩
  | head hstep hrest ih =>
    subst hstart
    cases hstep with
    | done h => exact hnext _ (hdone t _ hpre h) rest t' hrest
    | failed h => exact hfailed _ t ⟨hpre, h⟩ rest t' hrest
    | writing h => exact ih _ (hwriting _ _ _ t _ rfl hpre h) rfl

/-- The rule for an action without which the plan ends. -/
theorem holds_require {a : Action} (hduring : ∀ t, pre t → during t)
    (hwriting : ∀ p content part t t', a = .write p content → pre t → t.write p part = .ok t' →
      pre t')
    (hdone : ∀ t t', pre t → t.perform a = .ok t' → mid t')
    (hnext : Holds refuses during mid next post)
    (hfailed : ∀ e t, pre t → refuses t a e → post (.error e) t) :
    Holds refuses during pre (.require a next) post := by
  refine holds_perform hduring hwriting hdone hnext fun e => ?_
  exact holds_finish (fun t h => hduring t h.1) fun t h => hfailed e t h.1 h.2

theorem holds_requireDirectory {p : Path} {e : IoError} (hduring : ∀ t, pre t → during t)
    (hnext : Holds refuses during pre next post) (hfailed : ∀ t, pre t → post (.error e) t) :
    Holds refuses during pre (.requireDirectory p e next) post := by
  refine holds_perform hduring nofun ?_ hnext fun _ => ?_
  · intro t t' hpre h
    rwa [Tree.eq_of_checkDirectory h]
  · exact holds_finish (fun t h => hduring t h.1) fun t h => hfailed t h.1

/-- Directories are made where nothing was, so what does not mind them holds on. -/
theorem holds_makeDirectories (hduring : ∀ t, pre t → during t)
    (hmade : ∀ t (p : Path), pre t → p.place ≠ [] → t.get? p.place = none →
      pre (t.put p.place .directory))
    (hfailed : ∀ e t, pre t → post (.error e) t) (names : List String)
    (hnext : Holds refuses during pre next post) :
    Holds refuses during pre (.makeDirectories names next) post := by
  have hdone : ∀ (p : Path) t t', pre t → t.perform (.makeDirectory p) = .ok t' → pre t' := by
    intro p t t' hpre h
    obtain ⟨hnames, hfree, rfl⟩ := Tree.makeDirectory_eq_ok.mp h
    exact hmade t p hpre hnames.place_ne_nil hfree
  induction names generalizing next with
  | nil => exact hnext
  | cons name above ih =>
    have hthere (e : IoError) : Holds refuses during pre
        (.requireDirectory ⟨(name :: above).reverse, false⟩ e next) post :=
      holds_requireDirectory hduring hnext (hfailed e)
    rw [Plan.makeDirectories]
    refine holds_perform hduring nofun (hdone _) hnext fun e => .weaken ?_ fun t h => h.1
    dsimp only
    split
    · -- The directories above come first, then this one is tried again.
      refine ih (holds_perform hduring nofun (hdone _) hnext fun e => ?_)
      exact (hthere e).weaken fun t h => h.1
    · exact hthere e

end

end Harvest.Files
