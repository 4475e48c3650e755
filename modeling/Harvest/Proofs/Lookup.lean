import Mathlib.Data.List.Basic

/-!
Tables as lists of entries. The first entry of a key is the one that counts.
-/
namespace Harvest.Lookup

variable {κ β : Type} [BEq κ] [LawfulBEq κ] [DecidableEq κ]

theorem lookup_cons (first : κ × β) (rest : List (κ × β)) (k : κ) :
    (first :: rest).lookup k = if k = first.1 then some first.2 else rest.lookup k := by
  obtain ⟨key, value⟩ := first
  rw [List.lookup_cons]
  by_cases hk : k = key
  · simp [hk]
  · rw [beq_eq_false_iff_ne.mpr hk, if_neg hk]

/-- A key is taken out of a table with all of its entries. -/
theorem lookup_filter (entries : List (κ × β)) (key k : κ) :
    (entries.filter fun entry => entry.1 != key).lookup k =
      if k = key then none else entries.lookup k := by
  induction entries with
  | nil => simp
  | cons first rest ih =>
    by_cases hfirst : first.1 = key
    · rw [List.filter_cons_of_neg (by simp [hfirst]), ih, lookup_cons, hfirst]
      by_cases hk : k = key
      · rw [if_pos hk, if_pos hk]
      · rw [if_neg hk, if_neg hk, if_neg hk]
    · rw [List.filter_cons_of_pos (by simpa using hfirst), lookup_cons, lookup_cons, ih]
      by_cases hk : k = first.1
      · rw [if_pos hk, if_pos hk, if_neg (hk ▸ hfirst)]
      · rw [if_neg hk, if_neg hk]

end Harvest.Lookup
