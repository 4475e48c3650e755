import Harvest.Document

/-!
Texts that differ in the case of ASCII letters alone. Trimming and full lower case take them for the
same text, so that they name the same kind of resource.
-/
namespace Harvest.LetterCase

open Text

/-- A capital letter has its small letter 32 places on, and every other character stays. -/
theorem toLower_cases (c : Char) :
    c.toLower = c ∨ (65 ≤ c.toNat ∧ c.toNat ≤ 90 ∧ c.toLower.toNat = c.toNat + 32) := by
  unfold Char.toLower
  split
  next h =>
    right
    have hlow : 65 ≤ c.toNat := h.1
    have hhigh : c.toNat ≤ 90 := h.2
    have hval : c.val.toNat ≤ 90 := hhigh
    refine ⟨hlow, hhigh, ?_⟩
    change (c.val + 32).toNat = c.val.toNat + 32
    rw [UInt32.toNat_add]
    simp
    omega
  next => exact Or.inl rfl

theorem toLower_toLower (c : Char) : c.toLower.toLower = c.toLower := by
  rcases toLower_cases c with hsame | ⟨hlow, hhigh, hlower⟩
  · rw [hsame, hsame]
  · rcases toLower_cases c.toLower with hsame | ⟨_, hhigh', _⟩
    · exact hsame
    · omega

theorem isBlank_toLower (c : Char) : isBlank c.toLower = isBlank c := by
  rcases toLower_cases c with hsame | ⟨hlow, hhigh, hlower⟩
  · rw [hsame]
  · rw [Bool.eq_iff_iff]
    simp only [isBlank, hlower, Bool.or_eq_true, Bool.and_eq_true, decide_eq_true_eq, beq_iff_eq]
    omega

theorem lowerChar_toLower (c : Char) : lowerChar c.toLower = lowerChar c := by
  rcases toLower_cases c with hsame | ⟨hlow, hhigh, hlower⟩
  · rw [hsame]
  · have hother : ∀ d : Char, 200 ≤ d.toNat → (c == d) = false ∧ (c.toLower == d) = false := by
      intro d hd
      constructor
      · rw [beq_eq_false_iff_ne]
        rintro rfl
        omega
      · rw [beq_eq_false_iff_ne]
        rintro rfl
        omega
    obtain ⟨hkelvin, hkelvin'⟩ := hother '\u212A' (by decide)
    obtain ⟨hdotted, hdotted'⟩ := hother '\u0130' (by decide)
    simp only [lowerChar, hkelvin, hkelvin', hdotted, hdotted', toLower_toLower]

theorem lower_append (s t : List Char) : lower (s ++ t) = lower s ++ lower t :=
  List.flatMap_append

theorem lower_map_toLower (s : List Char) : lower (s.map Char.toLower) = lower s := by
  induction s with
  | nil => rfl
  | cons c s ih =>
    simp only [lower, List.map_cons, List.flatMap_cons] at ih ⊢
    rw [lowerChar_toLower, ih]

theorem trimEnd_map_toLower (s : List Char) :
    trimEnd (s.map Char.toLower) = (trimEnd s).map Char.toLower := by
  induction s with
  | nil => rfl
  | cons c s ih =>
    rw [List.map_cons, trimEnd, trimEnd, ih, isBlank_toLower]
    cases trimEnd s with
    | nil => cases isBlank c <;> rfl
    | cons d kept => rfl

theorem trimChars_map_toLower (s : List Char) :
    trimChars (s.map Char.toLower) = (trimChars s).map Char.toLower := by
  have hblank : isBlank ∘ Char.toLower = isBlank := funext isBlank_toLower
  rw [trimChars, trimStart, List.dropWhile_map, hblank, trimEnd_map_toLower, trimChars, trimStart]

theorem lower_trimChars_of_sameAscii {a b : String} (h : sameAscii a b = true) :
    lower (trimChars a.toList) = lower (trimChars b.toList) := by
  rw [← lower_map_toLower, ← trimChars_map_toLower, eq_of_beq h, trimChars_map_toLower,
    lower_map_toLower]

/-- The case of ASCII letters is no part of the name of a resource kind. -/
theorem ofText?_of_sameAscii {a b : String} (h : sameAscii a b = true) :
    ResourceKind.ofText? a = ResourceKind.ofText? b := by
  simp only [ResourceKind.ofText?, lower_trimChars_of_sameAscii h]

end Harvest.LetterCase
