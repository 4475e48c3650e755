import Harvest.Crosswalk.DataCite
import Harvest.Crosswalk.DublinCore

/-!
What is taken out of a list. The funders are parted from the other contributors by their type, and
the identifier of a resource from its other identifiers by its place. What remains stays in order.
-/
namespace Harvest.Selection

open Xml Crosswalk DataCite DublinCore

theorem mapFunders_eq (resource : Element) (d : Document) :
    mapFunders resource d =
      { d with
        contributors := (contributorsOf resource).filter fun c => !isFunder c,
        fundingReferences :=
          ((contributorsOf resource).filter isFunder).map fundingOfContributor } := by
  rw [mapFunders, List.partition_eq_filter_filter]
  rfl

/-! Identifiers dealt out by their places -/

section

variable {main : Option Nat} {k : Nat}

theorem dealOut_here (v : String) (dealt : Option Identifier × List Identifier) :
    dealOut (some k) dealt (v, k) = (some (typed v), dealt.2) := by
  rw [dealOut, beq_self_eq_true, if_pos rfl]

theorem dealOut_elsewhere (h : main ≠ some k) (v : String)
    (dealt : Option Identifier × List Identifier) :
    dealOut main dealt (v, k) = (dealt.1, dealt.2 ++ [typed v]) := by
  rw [dealOut, if_neg]
  rw [beq_iff_eq]
  exact h.symm

/-- Identifiers that stand before or behind the place that was found all stay, in their order. -/
theorem foldl_dealOut_elsewhere {values : List String}
    (h : ∀ i, i < values.length → main ≠ some (k + i))
    (dealt : Option Identifier × List Identifier) :
    (values.zipIdx k).foldl (dealOut main) dealt = (dealt.1, dealt.2 ++ values.map typed) := by
  induction values generalizing k dealt with
  | nil => simp
  | cons v values ih =>
    have hhere : main ≠ some k := h 0 (Nat.succ_pos _)
    have hrest : ∀ i, i < values.length → main ≠ some (k + 1 + i) := by
      intro i hi
      rw [Nat.add_assoc, Nat.add_comm 1 i]
      exact h (i + 1) (Nat.succ_lt_succ hi)
    rw [List.zipIdx_cons, List.foldl_cons, dealOut_elsewhere hhere, ih hrest, List.append_assoc,
      List.singleton_append, List.map_cons]

/-- The identifier at the place that was found is taken out, and all others stay. -/
theorem foldl_dealOut_at (values : List String) (k i : Nat)
    (dealt : Option Identifier × List Identifier) :
    (values.zipIdx k).foldl (dealOut (some (k + i))) dealt =
      ((values[i]?.map typed).or dealt.1, dealt.2 ++ (values.eraseIdx i).map typed) := by
  induction values generalizing k i dealt with
  | nil => simp
  | cons v values ih =>
    rw [List.zipIdx_cons, List.foldl_cons]
    cases i with
    | zero =>
      have hbehind : ∀ i, i < values.length → some (k + 0) ≠ some (k + 1 + i) := by
        intro i _
        rw [ne_eq, Option.some.injEq]
        omega
      rw [foldl_dealOut_elsewhere hbehind, Nat.add_zero, dealOut_here]
      rfl
    | succ i =>
      have hbefore : some (k + (i + 1)) ≠ some k := by
        rw [ne_eq, Option.some.injEq]
        omega
      have hplace : k + (i + 1) = k + 1 + i := by omega
      rw [dealOut_elsewhere hbefore, hplace, ih, List.append_assoc, List.singleton_append]
      rfl

end

/-- The place that the first pass finds is the one that the second pass deals by, so that it leaves
out one identifier and no other. -/
theorem splitIdentifiers_eq (values : List String) :
    splitIdentifiers values =
      match mainIndex? values with
      | none => (none, values.map typed)
      | some i => (values[i]?.map typed, (values.eraseIdx i).map typed) := by
  rw [splitIdentifiers]
  cases mainIndex? values with
  | none => exact foldl_dealOut_elsewhere (fun _ _ => (Option.some_ne_none _).symm) (none, [])
  | some i =>
    have hdealt := foldl_dealOut_at values 0 i (none, [])
    rw [Nat.zero_add, Option.or_none, List.nil_append] at hdealt
    exact hdealt

end Harvest.Selection
