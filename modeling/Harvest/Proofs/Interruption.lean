import Harvest.Proofs.Ending
import Harvest.Proofs.Renewal

/-!
Two runs on one source: the whole run, whose sink takes every document, and a run whose sink raises
the flag or fails at some document. Up to that document both go through the same stages, so that the
second one is cut off from the first. What is left of it has no effect on a later run.
-/
namespace Harvest.Interruption

open Course Trail Account Ending Renewal

variable {σ τ : Type}

/-- The sink that keeps all documents and does something else at the document of a given number. -/
def cut (k : ℕ) (result : Except Error Unit) (raised : Bool) : Sink (List Document) :=
  fun d kept =>
    if kept.length + 1 = k then { result, state := kept ++ [d], raised } else Sink.collect d kept

theorem cut_at {k : ℕ} {kept : List Document} (hk : kept.length + 1 = k)
    (result : Except Error Unit) (raised : Bool) (d : Document) :
    cut k result raised d kept = { result, state := kept ++ [d], raised } := if_pos hk

theorem cut_before {k : ℕ} {kept : List Document} (hk : kept.length + 1 ≠ k)
    (result : Except Error Unit) (raised : Bool) (d : Document) :
    cut k result raised d kept = Sink.collect d kept := if_neg hk

/-! A step with one sink and with another -/

/-- What a stage hands out does not depend on the sink. -/
theorem stage_alike (source : Source σ) (w : Crosswalk) (sink sink' : Sink τ) (r : Run σ τ) :
    (stage source w sink r).call = (stage source w sink' r).call ∧
      due (stage source w sink r) = due (stage source w sink' r) := by
  refine ⟨rfl, ?_⟩
  have hhanded (sink : Sink τ) (record : Record) :
      (handed w sink r.sink record).map Delivery.document = document? w record := by
    rw [handed, document?]
    rcases w.transform record with e | _ | d
    · rfl
    · rfl
    · rfl
  rw [due, due, stage, stage, Option.map_bind, Option.map_bind]
  congr 1
  funext record
  exact (hhanded sink record).trans (hhanded sink' record).symm

/-- Two sinks that do the same with the document of a step make the same step. -/
theorem step_congr {source : Source σ} {w : Crosswalk} {sink sink' : Sink τ} {r : Run σ τ}
    (hsame : ∀ d, due (stage source w sink r) = some d → sink d r.sink = sink' d r.sink) :
    stage source w sink r = stage source w sink' r ∧
      r.step source w sink = r.step source w sink' := by
  rcases hnext : r.cursor.next source r.session with ⟨answer, c, s⟩
  rcases answer with _ | e | record
  · simp [stage, Lifetime.call, Run.step, hnext, Lifetime.Event.record?]
  · simp [stage, Lifetime.call, Run.step, hnext, Lifetime.Event.record?]
  · rcases hrecord : w.transform record with e | _ | d
    · simp [stage, Lifetime.call, Run.step, hnext, Lifetime.Event.record?, handed, Run.takeRecord,
        hrecord]
    · simp [stage, Lifetime.call, Run.step, hnext, Lifetime.Event.record?, handed, Run.takeRecord,
        hrecord]
    · have hd : sink d r.sink = sink' d r.sink := by
        refine hsame d ?_
        simp [due, stage, Lifetime.call, hnext, Lifetime.Event.record?, handed, hrecord]
      simp [stage, Lifetime.call, Run.step, hnext, Lifetime.Event.record?, handed, Run.takeRecord,
        hrecord, Run.deliver, hd]

/-- A step without a document ends the run or leaves the sink as it is. -/
theorem step_without {source : Source σ} {w : Crosswalk} {sink : Sink τ} {r : Run σ τ}
    (hnone : due (stage source w sink r) = none) :
    (∃ result r', r.step source w sink = .ended result r') ∨
      ∃ r', r.step source w sink = .going r' ∧ r'.sink = r.sink ∧
        r'.report.documents = r.report.documents := by
  have hwent := went source w sink r
  generalize stage source w sink r = last at *
  generalize r.step source w sink = p at *
  cases hwent with
  | finished fetches l hcall => exact Or.inl ⟨_, _, rfl⟩
  | failed fetches l e hcall => exact Or.inl ⟨_, _, rfl⟩
  | omitted fetches l record e hcall hrecord => exact Or.inr ⟨_, rfl, rfl, rfl⟩
  | dropped fetches l record hcall hrecord => exact Or.inr ⟨_, rfl, rfl, rfl⟩
  | taken fetches l record d hcall hrecord hsink => cases hnone
  | refused fetches l record d e hcall hrecord hsink => cases hnone

/-- A run after a document went to the sink. -/
structure After (sink : Sink τ) (d : Document) (r r' : Run σ τ) : Prop where
  kept : r'.sink = (sink d r.sink).state
  count : r'.report.documents = r.report.documents + 1
  flag : r'.session.aborted = (sink d r.sink).raised
  going : r'.cursor.finished = false

/-- A step with a document goes on if the sink takes it, and ends with the error of the sink
otherwise. -/
theorem step_with {source : Source σ} {w : Crosswalk} {sink : Sink τ} {r : Run σ τ} {d : Document}
    (hdue : due (stage source w sink r) = some d) :
    ∃ r', After sink d r r' ∧ r.step source w sink =
      match (sink d r.sink).result with
      | .ok () => .going r'
      | .error e => .ended (.error e) r' := by
  have hwent := went source w sink r
  generalize stage source w sink r = last at *
  generalize r.step source w sink = p at *
  cases hwent with
  | finished fetches l hcall => cases hdue
  | failed fetches l e hcall => cases hdue
  | omitted fetches l record e hcall hrecord => cases hdue
  | dropped fetches l record hcall hrecord => cases hdue
  | taken fetches l record d' hcall hrecord hsink =>
    have hd : d' = d := Option.some.inj hdue
    subst hd
    obtain ⟨hopen, hdown⟩ := next_record hcall
    refine ⟨((counted record (moved l r)).deliver sink d').2.passed record, ?_, ?_⟩
    · exact {
        kept := rfl
        count := rfl
        flag := by simp [Run.passed, Run.deliver, counted, moved, hdown]
        going := hopen }
    · rw [hsink]
  | refused fetches l record d' e hcall hrecord hsink =>
    have hd : d' = d := Option.some.inj hdue
    subst hd
    obtain ⟨hopen, hdown⟩ := next_record hcall
    refine ⟨((counted record (moved l r)).deliver sink d').2, ?_, ?_⟩
    · exact {
        kept := rfl
        count := rfl
        flag := by simp [Run.deliver, counted, moved, hdown]
        going := hopen }
    · rw [hsink]

/-! Up to the document at which the sink does something else -/

/-- The whole run comes after `m` steps to the document of number `k`, and so does a run that is cut
off there. -/
structure Brink (source : Source σ) (w : Crosswalk) (k : ℕ) (r : Run σ (List Document)) (m : ℕ)
    (r' : Run σ (List Document)) (d : Document) : Prop where
  whole : advance source w .collect m (.going r) = .going r'
  kept : r'.sink = r.sink ++ documents (stages source w .collect m (.going r))
  last : r'.sink.length + 1 = k
  count : r'.report.documents = r'.sink.length
  next : due (stage source w .collect r') = some d
  same : ∀ result raised, advance source w (cut k result raised) m (.going r) = .going r' ∧
    stages source w (cut k result raised) m (.going r) = stages source w .collect m (.going r)

/-- A step before that document. -/
theorem Brink.cons {source : Source σ} {w : Crosswalk} {k m : ℕ} {r r₁ r' : Run σ (List Document)}
    {d : Document} (h : Brink source w k r₁ m r' d)
    (hstep : r.step source w .collect = .going r₁)
    (hkept : r₁.sink = r.sink ++ (due (stage source w .collect r)).toList)
    (hbefore : due (stage source w .collect r) = none ∨ r.sink.length + 1 ≠ k) :
    Brink source w k r (m + 1) r' d where
  whole := by rw [advance, hstep, h.whole]
  kept := by rw [stages, hstep, documents_cons, ← List.append_assoc, ← hkept, h.kept]
  last := h.last
  count := h.count
  next := h.next
  same := by
    intro result raised
    have hcongr : ∀ d, due (stage source w .collect r) = some d →
        Sink.collect d r.sink = cut k result raised d r.sink := by
      intro d hd
      rcases hbefore with hnone | hk
      · rw [hnone] at hd
        cases hd
      · exact (cut_before hk result raised d).symm
    obtain ⟨hstage, hstep'⟩ := step_congr hcongr
    obtain ⟨hadvance, hstages⟩ := h.same result raised
    rw [hstep] at hstep'
    constructor
    · rw [advance, ← hstep', hadvance]
    · rw [stages, stages, ← hstage, ← hstep', hstep, hstages]

/-- A whole run with enough documents comes to that of number `k`. -/
theorem exists_brink {source : Source σ} {w : Crosswalk} {k : ℕ} (n : ℕ)
    (r : Run σ (List Document)) (hcount : r.report.documents = r.sink.length)
    (hbefore : r.sink.length < k)
    (henough : k ≤ r.sink.length + (documents (stages source w .collect n (.going r))).length) :
    ∃ m r' d, m < n ∧ Brink source w k r m r' d := by
  -- By induction on the steps of the whole run: a step before document `k` is the same with either
  -- sink and keeps the number of documents still to come.
  induction n generalizing r with
  | zero =>
    have hnone : documents (stages source w .collect 0 (.going r)) = [] := rfl
    rw [hnone, List.length_nil] at henough
    omega
  | succ n ih =>
    rw [stages, documents_cons, List.length_append] at henough
    cases hdue : due (stage source w .collect r) with
    | none =>
      rw [hdue] at henough
      rcases step_without hdue with ⟨result, r₁, hstep⟩ | ⟨r₁, hstep, hsink, hreport⟩
      · have hnone : documents ([] : List Stage) = [] := rfl
        rw [hstep, stages_ended, hnone] at henough
        simp only [Option.toList_none, List.length_nil] at henough
        omega
      · rw [hstep] at henough
        obtain ⟨m, r', d, hm, hbrink⟩ := ih r₁ (by rw [hreport, hsink, hcount])
          (by rw [hsink]; exact hbefore) (by rw [hsink]; simpa using henough)
        refine ⟨m + 1, r', d, Nat.succ_lt_succ hm, hbrink.cons hstep ?_ (Or.inl hdue)⟩
        rw [hdue, hsink, Option.toList_none, List.append_nil]
    | some d =>
      by_cases hk : r.sink.length + 1 = k
      · refine ⟨0, r, d, Nat.succ_pos n, ?_⟩
        exact {
          whole := rfl
          kept := (List.append_nil _).symm
          last := hk
          count := hcount
          next := hdue
          same := fun _ _ => ⟨rfl, rfl⟩ }
      · obtain ⟨r₁, hafter, hstep⟩ := step_with hdue
        have hsink : r₁.sink = r.sink ++ [d] := hafter.kept
        have hlength : r₁.sink.length = r.sink.length + 1 := by
          rw [hsink, List.length_append, List.length_singleton]
        have hgoing : r.step source w .collect = .going r₁ := hstep
        rw [hdue, hgoing] at henough
        simp only [Option.toList_some, List.length_singleton] at henough
        obtain ⟨m, r', d', hm, hbrink⟩ := ih r₁ (by rw [hafter.count, hlength, hcount])
          (by omega) (by omega)
        refine ⟨m + 1, r', d', Nat.succ_lt_succ hm, hbrink.cons hgoing ?_ (Or.inr hk)⟩
        rw [hdue, hsink, Option.toList_some]

/-! A harvest that is cut off -/

theorem urls_cons (last : Stage) (seen : List Stage) :
    urls (last :: seen) = last.call.fetches.map Observation.Fetch.url ++ urls seen := by
  simp [urls, calls, requests]

theorem due_opening (source : Source σ) (query : ListQuery) (s : Session σ) :
    due (opening source query s) = none := rfl

/-- The stages of a whole run that comes to the document of number `k`. -/
theorem Brink.stages_eq {source : Source σ} {w : Crosswalk} {k m : ℕ}
    {r r' : Run σ (List Document)} {d : Document} (h : Brink source w k r m r' d) (j : ℕ) :
    stages source w .collect (m + (j + 1)) (.going r) =
      stages source w .collect m (.going r) ++
        stage source w .collect r' :: stages source w .collect j (r'.step source w .collect) := by
  rw [stages_add, h.whole, stages]

/-- It has handed out this document and those before. -/
theorem Brink.take {source : Source σ} {w : Crosswalk} {k m : ℕ} {r r' : Run σ (List Document)}
    {d : Document} (h : Brink source w k r m r' d) (hnew : r.sink = []) (j : ℕ) :
    (documents (stages source w .collect (m + (j + 1)) (.going r))).take k = r'.sink ++ [d] := by
  have hkept : documents (stages source w .collect m (.going r)) = r'.sink := by
    rw [h.kept, hnew, List.nil_append]
  rw [h.stages_eq, documents_append, documents_cons, h.next, hkept, Option.toList_some,
    ← List.append_assoc]
  refine List.take_left' ?_
  rw [List.length_append, List.length_singleton, h.last]

/-- A run that is cut off ends at that document or one step later. It has asked for nothing that the
whole run does not ask for. -/
theorem Brink.ended {source : Source σ} {w : Crosswalk} {k m : ℕ} {r r' : Run σ (List Document)}
    {d : Document} (h : Brink source w k r m r' d) {result : Except Error Unit} {raised : Bool}
    (hcut : raised = true ∨ ∃ e, result = .error e) (j : ℕ) :
    ∃ answer r₁,
      advance source w (cut k result raised) (m + (j + 2)) (.going r) = .ended answer r₁ ∧
      r₁.sink = r'.sink ++ [d] ∧
      urls (stages source w (cut k result raised) (m + (j + 2)) (.going r)) =
        urls (stages source w .collect m (.going r) ++ [stage source w .collect r']) ∧
      (result = .ok () →
        ∃ report, answer = .ok report ∧ report.aborted = true ∧ report.documents = k) ∧
      ∀ e, result = .error e → answer = .error e := by
  obtain ⟨hadvance, hstages⟩ := h.same result raised
  obtain ⟨hcalls, hdue⟩ := stage_alike source w Sink.collect (cut k result raised) r'
  obtain ⟨r₁, hafter, hstep⟩ := step_with (hdue.symm.trans h.next)
  have hkept : r₁.sink = r'.sink ++ [d] := by rw [hafter.kept, cut_at h.last]
  rw [cut_at h.last] at hstep
  cases result with
  | error e =>
    have hended : r'.step source w (cut k (.error e) raised) = .ended (.error e) r₁ := hstep
    refine ⟨.error e, r₁, ?_, hkept, ?_, (fun hok => by cases hok), fun _ he => by cases he; rfl⟩
    · rw [advance_add, hadvance, advance, hended, advance_ended]
    · rw [stages_add, hadvance, hstages, stages, hended, stages_ended, urls_append, urls_append,
        urls_cons, urls_cons, hcalls]
  | ok u =>
    have hgoing : r'.step source w (cut k (.ok ()) raised) = .going r₁ := hstep
    have hup : r₁.session.aborted = true := by
      rw [hafter.flag, cut_at h.last]
      simpa using hcut
    obtain ⟨hfetches, _, hover⟩ :=
      step_stopped source w (cut k (.ok ()) raised) hafter.going hup
    let r₂ := { r₁ with cursor := r₁.cursor.stop }
    refine ⟨.ok r₂.finalReport, r₂, ?_, hkept, ?_, ?_, fun _ he => by cases he⟩
    · rw [advance_add, hadvance, advance, hgoing, advance, hover, advance_ended]
    · rw [stages_add, hadvance, hstages, stages, hgoing, stages, hover, stages_ended, urls_append,
        urls_append, urls_cons, urls_cons, urls_cons, hcalls, hfetches, List.map_nil,
        List.nil_append]
    · intro _
      refine ⟨_, rfl, hup, ?_⟩
      change r₁.report.documents = k
      rw [hafter.count, h.count, h.last]

theorem keeper_documents {answers : String → Except Error String}
    (hpage : Page.ofAnswer (answers keeperQuery.url) = (gonePage, .noRecords)) :
    documents (course (.fixed answers) .collect 4 keeper ⟨(), true⟩ []) =
      [.tombstone "a" "Unknown" (some "1"), .tombstone "b" "Unknown" none] := by
  rw [course_eq _ _ _ _ _ keeper_crosswalk keeper_query, start_fixed hpage rfl]
  rfl

end Harvest.Interruption
