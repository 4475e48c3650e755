import Harvest.Text.Blank
import Harvest.Xml.Reference

/-!
Blanks at the ends of texts, and texts beside their blanks. Trimming takes nothing else off, and
neither does the reading of line ends. So what a text is beside the blanks at its end can be told
from its parts, and the parts cannot be told apart if nothing but blanks is in the second.
-/
namespace Harvest.Blanks

open Xml Text

theorem trimEnd_append_congr {s t : List Char} (before : List Char) (h : trimEnd s = trimEnd t) :
    trimEnd (before ++ s) = trimEnd (before ++ t) := by
  induction before with
  | nil => exact h
  | cons c before ih => simp only [List.cons_append, trimEnd, ih]

theorem trimEnd_of_blank {s : List Char} (h : s.all isBlank = true) : trimEnd s = [] := by
  induction s with
  | nil => rfl
  | cons c s ih =>
    rw [List.all_cons, Bool.and_eq_true] at h
    simp only [trimEnd, ih h.2, h.1, if_true]

theorem trimEnd_append_blank (s : List Char) {t : List Char} (h : t.all isBlank = true) :
    trimEnd (s ++ t) = trimEnd s := by
  have hnil : trimEnd t = trimEnd [] := trimEnd_of_blank h
  rw [trimEnd_append_congr s hnil, List.append_nil]

/-- Nothing but blanks is taken off the end. -/
theorem trimEnd_append_rest (s : List Char) :
    ∃ rest, rest.all isBlank = true ∧ trimEnd s ++ rest = s := by
  induction s with
  | nil => exact ⟨[], rfl, rfl⟩
  | cons c s ih =>
    obtain ⟨rest, hblank, hrest⟩ := ih
    rw [trimEnd]
    cases hs : trimEnd s with
    | nil =>
      rw [hs, List.nil_append] at hrest
      subst hrest
      cases hc : isBlank c with
      | true => exact ⟨c :: rest, by simp [hc, hblank], rfl⟩
      | false => exact ⟨rest, hblank, rfl⟩
    | cons d kept =>
      rw [hs] at hrest
      exact ⟨rest, hblank, congrArg (List.cons c) hrest⟩

theorem trimEnd_trimEnd (s : List Char) : trimEnd (trimEnd s) = trimEnd s := by
  obtain ⟨rest, hblank, hrest⟩ := trimEnd_append_rest s
  have hend : trimEnd (trimEnd s ++ rest) = trimEnd (trimEnd s) := trimEnd_append_blank _ hblank
  rw [← hend, hrest]

/-- What stands before a character that is no blank is kept. -/
theorem trimEnd_append_cons (s : List Char) {c : Char} (hc : isBlank c = false) (t : List Char) :
    trimEnd (s ++ c :: t) = s ++ c :: trimEnd t := by
  induction s with
  | nil =>
    rw [List.nil_append, List.nil_append, trimEnd]
    cases trimEnd t with
    | nil => simp [hc]
    | cons d kept => rfl
  | cons d s ih =>
    rw [List.cons_append, trimEnd, ih]
    cases s with
    | nil => rfl
    | cons e s => rfl

/-- The ends of a text may be trimmed in any order. -/
theorem trimChars_eq (s : List Char) : trimChars s = trimStart (trimEnd s) := by
  induction s with
  | nil => rfl
  | cons c s ih =>
    cases hc : isBlank c with
    | true =>
      have hstart : trimChars (c :: s) = trimChars s := by
        rw [trimChars, trimChars, trimStart, List.dropWhile_cons_of_pos hc, trimStart]
      rw [hstart, ih, trimEnd]
      cases hs : trimEnd s with
      | nil => simp [hc]
      | cons d kept => simp [trimStart, hc]
    | false =>
      have hstart : trimStart (c :: s) = c :: s := by
        rw [trimStart, List.dropWhile_cons_of_neg (by simp [hc])]
      rw [trimChars, hstart, trimEnd]
      cases trimEnd s with
      | nil => simp [trimStart, hc]
      | cons d kept => simp [trimStart, hc]

theorem trimStart_blank_append {s : List Char} (h : s.all isBlank = true) (t : List Char) :
    trimStart (s ++ t) = trimStart t :=
  List.dropWhile_append_of_pos (by simpa using h)

/-- What is put around a text is taken off again. -/
theorem trimChars_surrounded {before after : List Char} (hbefore : before.all isBlank = true)
    (hafter : after.all isBlank = true) (s : List Char) :
    trimChars (before ++ s ++ after) = trimChars s := by
  calc
    trimChars (before ++ s ++ after) = trimEnd (trimStart (s ++ after)) := by
      rw [trimChars, List.append_assoc, trimStart_blank_append hbefore]
    _ = trimStart (trimEnd (s ++ after)) := trimChars_eq (s ++ after)
    _ = trimChars s := by rw [trimEnd_append_blank s hafter, trimChars_eq]

/-! Texts without blanks -/

theorem solid_of_all {s : List Char} (h : (s.all fun c => !isBlank c) = true) :
    ∀ c ∈ s, isBlank c = false := by
  simpa only [List.all_eq_true, Bool.not_eq_true'] using h

theorem trimStart_of_head {s : List Char} (h : ∀ c ∈ s.head?, isBlank c = false) :
    trimStart s = s := by
  cases s with
  | nil => rfl
  | cons c s => rw [trimStart, List.dropWhile_cons_of_neg (by simp [h c rfl])]

theorem trimStart_head? (s : List Char) : ∀ c ∈ (trimStart s).head?, isBlank c = false := by
  intro c hc
  have hnot := List.head?_dropWhile_not isBlank s
  rw [trimStart, Option.mem_def] at hc
  rw [hc] at hnot
  exact hnot

theorem trimStart_trimChars (s : List Char) : trimStart (trimChars s) = trimChars s := by
  rw [trimChars_eq]
  exact trimStart_of_head (trimStart_head? _)

theorem trimEnd_trimChars (s : List Char) : trimEnd (trimChars s) = trimChars s :=
  trimEnd_trimEnd (trimStart s)

theorem trimChars_trimChars (s : List Char) : trimChars (trimChars s) = trimChars s := by
  rw [trimChars, trimStart_trimChars, trimEnd_trimChars]

theorem trimStart_of_solid {s : List Char} (h : ∀ c ∈ s, isBlank c = false) : trimStart s = s :=
  trimStart_of_head fun c hc => h c (List.mem_of_mem_head? hc)

/-- Up to the last character that is no blank, nothing is taken off. -/
theorem trimEnd_solid_append {s : List Char} (h : ∀ c ∈ s, isBlank c = false) (t : List Char) :
    trimEnd (s ++ t) = s ++ trimEnd t := by
  induction s with
  | nil => rfl
  | cons c s ih =>
    rw [List.cons_append, trimEnd, ih fun d hd => h d (List.mem_cons_of_mem c hd)]
    cases hrest : s ++ trimEnd t with
    | nil => simp [h c List.mem_cons_self, hrest]
    | cons d kept => rw [List.cons_append, hrest]

theorem trimChars_of_solid {s : List Char} (h : ∀ c ∈ s, isBlank c = false) :
    trimChars s = s := by
  have hend : trimEnd (s ++ []) = s ++ [] := trimEnd_solid_append h []
  rw [List.append_nil] at hend
  rw [trimChars, trimStart_of_solid h, hend]

/-! The characters that are no blanks -/

def solid (s : List Char) : List Char := s.filter fun c => !isBlank c

theorem solid_append (s t : List Char) : solid (s ++ t) = solid s ++ solid t :=
  List.filter_append _ _

theorem solid_eq_nil {s : List Char} : solid s = [] ↔ s.all isBlank = true := by
  simp [solid, List.filter_eq_nil_iff]

theorem solid_trimEnd (s : List Char) : solid (trimEnd s) = solid s := by
  induction s with
  | nil => rfl
  | cons c s ih =>
    have hcons : solid (c :: s) = solid (c :: trimEnd s) := by
      simp only [solid, List.filter_cons] at ih ⊢
      rw [ih]
    rw [hcons, trimEnd]
    cases trimEnd s with
    | nil => cases hc : isBlank c <;> simp [solid, hc]
    | cons d kept => rfl

theorem solid_trimStart (s : List Char) : solid (trimStart s) = solid s := by
  induction s with
  | nil => rfl
  | cons c s ih =>
    cases hc : isBlank c with
    | true =>
      rw [trimStart, List.dropWhile_cons_of_pos hc, ← trimStart, ih]
      simp [solid, hc]
    | false => rw [trimStart, List.dropWhile_cons_of_neg (by simp [hc])]

theorem solid_trimChars (s : List Char) : solid (trimChars s) = solid s := by
  rw [trimChars, solid_trimEnd, solid_trimStart]

/-! What of a raw text is written at its end -/

/-- The character a piece stands for. -/
def character : Piece → Char
  | .written c => c
  | .meant c => c

theorem piecesFrom_append {raw raw' : List Char} {name : Option (List Char)} {ps : List Piece}
    (h : piecesFrom name raw = some ps) :
    piecesFrom name (raw ++ raw') = (pieces raw').map (ps ++ ·) := by
  induction raw generalizing name ps with
  | nil =>
    cases name with
    | some read => cases h
    | none =>
      obtain rfl := Option.some.inj h
      simp [pieces]
  | cons c raw ih =>
    rw [List.cons_append]
    unfold piecesFrom at h ⊢
    cases name with
    | some read =>
      dsimp only at h ⊢
      split at h
      · rename_i hend
        obtain ⟨m, hm, h⟩ := Option.bind_eq_some_iff.mp h
        obtain ⟨more, hmore, h⟩ := Option.bind_eq_some_iff.mp h
        obtain rfl := Option.some.inj h
        rw [if_pos hend, hm, ih hmore]
        cases pieces raw' <;> rfl
      · rename_i hend
        rw [if_neg hend, ih h]
    | none =>
      dsimp only at h ⊢
      split at h
      · rename_i hstart
        rw [if_pos hstart, ih h]
      · rename_i hstart
        obtain ⟨more, hmore, rfl⟩ := Option.map_eq_some_iff.mp h
        rw [if_neg hstart, ih hmore]
        cases pieces raw' <;> rfl

theorem isBlank_return {c : Char} (h : (c == '\r') = true) : isBlank c = true := by
  rw [beq_iff_eq.mp h]
  rfl

theorem isBlank_feed {c : Char} (h : (c == '\n') = true) : isBlank c = true := by
  rw [beq_iff_eq.mp h]
  rfl

/-- The reading of line ends leaves every character that is no blank. -/
theorem solid_joinLines (behind : Bool) (ps : List Piece) :
    solid (joinLines behind ps) = solid (ps.map character) := by
  have hfeed : isBlank '\n' = true := rfl
  simp only [solid]
  fun_induction joinLines behind ps with
  | case1 => rfl
  | case2 _ c rest ih => simp [List.filter_cons, character, ih]
  | case3 behind c hc =>
    rw [Bool.and_eq_true] at hc
    simp [character, hfeed, isBlank_return hc.1]
  | case4 behind c hc => simp [character]
  | case5 _ c d rest ih => simp [List.filter_cons, character, ih]
  | case6 _ c d rest hc hd ih =>
    simp [character, ih, hfeed, isBlank_return hc, isBlank_feed hd]
  | case7 _ c d rest hc hd ih => simp [character, ih, hfeed, isBlank_return hc]
  | case8 _ c d rest hc ih => simp [List.filter_cons, character, ih]

/-- A character that is no carriage return is read as it is, whatever follows it. -/
theorem joinLines_cons {c : Char} (hc : (c == '\r') = false) (behind : Bool) (ps : List Piece) :
    joinLines behind (.written c :: ps) = c :: joinLines false ps := by
  cases ps with
  | nil => simp [joinLines, hc]
  | cons p ps => cases p <;> simp [joinLines, hc]

/-- Blanks that follow make no difference to a text beside blanks at its end. -/
theorem trimEnd_joinLines {more : List Piece}
    (hmore : solid (more.map character) = []) (behind : Bool) (ps : List Piece) :
    trimEnd (joinLines behind (ps ++ more)) = trimEnd (joinLines behind ps) := by
  have hcons (c : Char) {s t : List Char} (h : trimEnd s = trimEnd t) :
      trimEnd (c :: s) = trimEnd (c :: t) := trimEnd_append_congr [c] h
  have hblank (behind : Bool) {qs : List Piece} (h : solid (qs.map character) = []) :
      trimEnd (joinLines behind qs) = [] :=
    trimEnd_of_blank (solid_eq_nil.mp (by rw [solid_joinLines, h]))
  have hsolid {c : Char} (hc : isBlank c = true) :
      solid (([Piece.written c] ++ more).map character) = [] := by
    simpa [solid, character, hc] using hmore
  fun_induction joinLines behind ps with
  | case1 behind => exact hblank behind hmore
  | case2 _ c rest ih => exact hcons c ih
  | case3 behind c hc =>
    rw [Bool.and_eq_true] at hc
    rw [hblank behind (hsolid (isBlank_return hc.1))]
    rfl
  | case4 behind c hc =>
    cases hreturn : (c == '\r') with
    | true =>
      have hc := isBlank_return hreturn
      rw [hblank behind (hsolid hc), trimEnd_of_blank (by simp [hc])]
    | false =>
      rw [List.singleton_append, joinLines_cons hreturn]
      exact hcons c (hblank false hmore)
  | case5 _ c d rest ih => exact hcons c (hcons d ih)
  | case6 _ c d rest hc hd ih =>
    simp only [List.cons_append, joinLines, hc, hd, if_true]
    exact hcons '\n' ih
  | case7 _ c d rest hc hd ih =>
    simp only [List.cons_append, joinLines, hc, hd, if_true]
    exact hcons '\n' ih
  | case8 _ c d rest hc ih =>
    rw [List.cons_append, joinLines_cons (by simpa using hc)]
    exact hcons c ih

/-- A run of text that is parted has the same characters beside blanks, and if nothing but blanks
is in its second part, the first is the whole beside blanks at the end. -/
theorem textOfRaw_append {raw raw' s t : List Char} (hs : textOfRaw raw = some s)
    (ht : textOfRaw (raw ++ raw') = some t) :
    ∃ more, textOfRaw raw' = some more ∧ solid t = solid s ++ solid more ∧
      (solid more = [] → trimEnd t = trimEnd s) := by
  obtain ⟨ps, hps, rfl⟩ := Option.map_eq_some_iff.mp hs
  obtain ⟨both, hboth, rfl⟩ := Option.map_eq_some_iff.mp ht
  rw [pieces, piecesFrom_append hps] at hboth
  obtain ⟨more, hmore, rfl⟩ := Option.map_eq_some_iff.mp hboth
  refine ⟨joinLines false more, by rw [textOfRaw, hmore, Option.map_some], ?_, fun hblank => ?_⟩
  · rw [solid_joinLines, solid_joinLines, solid_joinLines, List.map_append, solid_append]
  · rw [solid_joinLines] at hblank
    exact trimEnd_joinLines hblank false ps

end Harvest.Blanks
