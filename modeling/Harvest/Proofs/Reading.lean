import Harvest.Xml.Document
import Mathlib.Data.List.Basic

/-!
Reading from the front. What is read of a text that goes on is read in the same way, because every
token but a run of text tells where it ends. So the tokens of a text are those of its parts, if it
is parted between tokens, and a run of text that is parted becomes two.
-/
namespace Harvest.Reading

open Xml Text

/-! Texts that go on -/

section

variable {p : Char → Bool} {s u : List Char}

theorem dropWhile_append (h : s.dropWhile p ≠ []) :
    (s ++ u).dropWhile p = s.dropWhile p ++ u := by
  rw [List.dropWhile_append, if_neg (by simpa using h)]

theorem takeWhile_append (h : s.dropWhile p ≠ []) : (s ++ u).takeWhile p = s.takeWhile p := by
  rw [List.takeWhile_append, if_neg]
  intro hlength
  have hall := List.takeWhile_append_dropWhile (p := p) (l := s)
  have hsum := congrArg List.length hall
  rw [List.length_append, hlength] at hsum
  exact h (List.length_eq_zero_iff.mp (by omega))

theorem skipSpaces_append (h : skipSpaces s ≠ []) : skipSpaces (s ++ u) = skipSpaces s ++ u :=
  dropWhile_append h

theorem skipSpaces_suffix (s : List Char) : skipSpaces s <:+ s := List.dropWhile_suffix _

theorem suffix_of_skipSpaces {c : Char} {rest : List Char} (h : skipSpaces s = c :: rest) :
    rest <:+ s :=
  (List.suffix_cons c rest).trans (h ▸ skipSpaces_suffix s)

theorem ne_nil_of_skipSpaces (h : skipSpaces s ≠ []) : s ≠ [] := by
  rintro rfl
  exact h rfl

theorem any_head?_append (h : s.head?.any p = true) (u : List Char) :
    (s ++ u).head?.any p = true := by
  cases s with
  | nil => cases h
  | cons c s => exact h

variable {mark : List Char}

theorem isPrefixOf_append (h : mark.length ≤ s.length) :
    mark.isPrefixOf (s ++ u) = mark.isPrefixOf s := by
  rw [Bool.eq_iff_iff, List.isPrefixOf_iff_prefix, List.isPrefixOf_iff_prefix]
  exact ⟨fun hlong => List.prefix_of_prefix_length_le hlong (List.prefix_append s u) h,
    fun hshort => hshort.trans (List.prefix_append s u)⟩

/-- A text that holds anything else than the mark tells whether it starts with the mark. -/
theorem startsWith_append (h : ∃ c ∈ s, c ∉ mark) :
    startsWith (s ++ u) mark = startsWith s mark := by
  obtain ⟨c, hc, hother⟩ := h
  rw [startsWith, startsWith, Bool.eq_iff_iff, List.isPrefixOf_iff_prefix,
    List.isPrefixOf_iff_prefix]
  refine ⟨fun hlong => ?_, fun hshort => hshort.trans (List.prefix_append s u)⟩
  rcases List.prefix_or_prefix_of_prefix hlong (List.prefix_append s u) with hshort | hpart
  · exact hshort
  · exact absurd (hpart.subset hc) hother

theorem after?_append {rest : List Char} (h : after? mark s = some rest) (u : List Char) :
    after? mark (s ++ u) = some (rest ++ u) := by
  unfold after? at h ⊢
  split at h
  · rename_i hmark
    have hlength := (List.isPrefixOf_iff_prefix.mp hmark).length_le
    rw [isPrefixOf_append hlength, if_pos hmark, List.drop_append_of_le_length hlength,
      Option.some.inj h]
  · cases h

theorem after?_eq {rest : List Char} (h : after? mark s = some rest) : s = mark ++ rest := by
  unfold after? at h
  split at h
  · rename_i hmark
    obtain ⟨more, hmore⟩ := List.isPrefixOf_iff_prefix.mp hmark
    rw [← hmore, List.drop_left] at h
    rw [← hmore, Option.some.inj h]
  · cases h

theorem after?_prefix (mark t : List Char) : after? mark (mark ++ t) = some t := by
  rw [after?, if_pos (List.isPrefixOf_iff_prefix.mpr (List.prefix_append mark t)), List.drop_left]

theorem after?_eq_none (h : ¬ mark <+: s) : after? mark s = none := by
  rw [after?, if_neg (by rwa [List.isPrefixOf_iff_prefix])]

theorem cutAt_eq {left right : List Char} (h : cutAt mark s = some (left, right)) :
    s = left ++ mark ++ right := by
  induction s generalizing left with
  | nil =>
    unfold cutAt at h
    split at h
    · rename_i hmark
      obtain ⟨rfl, rfl⟩ := Prod.mk.inj (Option.some.inj h)
      simp [List.isEmpty_iff.mp hmark]
    · cases h
  | cons c rest ih =>
    unfold cutAt at h
    split at h
    · rename_i hmark
      obtain ⟨rfl, rfl⟩ := Prod.mk.inj (Option.some.inj h)
      obtain ⟨more, hmore⟩ := List.isPrefixOf_iff_prefix.mp hmark
      rw [← hmore, List.drop_left, List.nil_append]
    · obtain ⟨⟨left', right'⟩, hcut, heq⟩ := Option.map_eq_some_iff.mp h
      obtain ⟨rfl, rfl⟩ := Prod.mk.inj heq
      rw [ih hcut, List.cons_append, List.cons_append]

theorem cutAt_append {left right : List Char} (hmark : mark ≠ [])
    (h : cutAt mark s = some (left, right)) (u : List Char) :
    cutAt mark (s ++ u) = some (left, right ++ u) := by
  induction s generalizing left with
  | nil =>
    have hnone : mark.isEmpty = false := by simpa using hmark
    simp [cutAt, hnone] at h
  | cons c rest ih =>
    have hlength : mark.length ≤ (c :: rest).length := by
      rw [cutAt_eq h]
      simp only [List.length_append]
      omega
    have hsame := isPrefixOf_append (u := u) hlength
    unfold cutAt at h
    rw [List.cons_append, cutAt]
    rw [List.cons_append] at hsame
    split at h
    · rename_i hpre
      obtain ⟨rfl, rfl⟩ := Prod.mk.inj (Option.some.inj h)
      rw [if_pos (hsame.trans hpre), ← List.cons_append, List.drop_append_of_le_length hlength]
    · rename_i hpre
      obtain ⟨⟨left', right'⟩, hcut, heq⟩ := Option.map_eq_some_iff.mp h
      obtain ⟨rfl, rfl⟩ := Prod.mk.inj heq
      rw [if_neg (by rw [hsame]; exact hpre), ih hcut, Option.map_some]

/-- What holds a mark in its second part holds it as a whole. -/
theorem holds_append_right (s : List Char) (h : holds u mark = true) :
    holds (s ++ u) mark = true := by
  induction s with
  | nil => exact h
  | cons c rest ih =>
    unfold holds at ih ⊢
    rw [List.cons_append, cutAt]
    split
    · rfl
    · rw [Option.isSome_map]
      exact ih

end

/-! Names, values and tags -/

/-- A proper part at the end. -/
structure Rest (r s : List Char) : Prop where
  suffix : r <:+ s
  shorter : r.length < s.length

theorem Rest.trans {r t s : List Char} (h : Rest r t) (hsuffix : t <:+ s) : Rest r s where
  suffix := h.suffix.trans hsuffix
  shorter := Nat.lt_of_lt_of_le h.shorter hsuffix.length_le

theorem Rest.cons {r s : List Char} (c : Char) (h : r <:+ s) : Rest r (c :: s) where
  suffix := h.trans (List.suffix_cons c s)
  shorter := Nat.lt_succ_of_le h.length_le

/-- A reader takes something off, and what follows a text makes no difference to it. -/
def Steady {α : Type} (read : List Char → Option (α × List Char)) : Prop :=
  ∀ s x r, read s = some (x, r) → Rest r s ∧ ∀ u, read (s ++ u) = some (x, r ++ u)

variable {s r : List Char}

theorem readName_rest {name : QName} (h : readName s = some (name, r)) :
    Rest r s ∧ s.head?.any isNamePart = true := by
  obtain ⟨name', hrun, heq⟩ := Option.map_eq_some_iff.mp h
  obtain ⟨rfl, rfl⟩ := Prod.mk.inj heq
  cases s with
  | nil => cases hrun
  | cons c rest =>
    cases hpart : isNamePart c with
    | true =>
      rw [List.dropWhile_cons_of_pos hpart]
      exact ⟨.cons c (List.dropWhile_suffix _), by simpa using hpart⟩
    | false =>
      rw [List.takeWhile_cons_of_neg (by simp [hpart])] at hrun
      cases hrun

/-- A name that is not the end of the text. -/
theorem readName_append {name : QName} (h : readName s = some (name, r)) (hr : r ≠ [])
    (u : List Char) : readName (s ++ u) = some (name, r ++ u) := by
  obtain ⟨name', hrun, heq⟩ := Option.map_eq_some_iff.mp h
  obtain ⟨rfl, rfl⟩ := Prod.mk.inj heq
  rw [readName, takeWhile_append hr, hrun, dropWhile_append hr, Option.map_some]

theorem steady_readQuoted : Steady readQuoted := by
  intro s value r h
  cases s with
  | nil => cases h
  | cons quote rest =>
    simp only [readQuoted] at h
    split at h
    · rename_i hquote
      split at h
      · rename_i c rest' hinside
        have hne : rest.dropWhile (fun c => c != quote && c != '<') ≠ [] := by simp [hinside]
        split at h
        · rename_i hclosed
          obtain ⟨rfl, rfl⟩ := Prod.mk.inj (Option.some.inj h)
          refine ⟨.cons quote ?_, fun u => ?_⟩
          · have hsuffix := List.dropWhile_suffix (l := rest) fun c => c != quote && c != '<'
            rw [hinside] at hsuffix
            exact (List.suffix_cons c rest').trans hsuffix
          · simp only [List.cons_append, readQuoted, if_pos hquote, dropWhile_append hne,
              takeWhile_append hne, hinside, if_pos hclosed]
        · cases h
      · cases h
    · cases h

theorem steady_readAttribute : Steady readAttribute := by
  intro s x r h
  obtain ⟨⟨name, rest⟩, hname, h⟩ := Option.bind_eq_some_iff.mp h
  dsimp only at h
  split at h
  · rename_i rest' hequals
    obtain ⟨⟨value, rest''⟩, hvalue, h⟩ := Option.bind_eq_some_iff.mp h
    obtain ⟨rfl, rfl⟩ := Prod.mk.inj (Option.some.inj h)
    have hspaces : skipSpaces rest ≠ [] := by simp [hequals]
    have hvalueSpaces : skipSpaces rest' ≠ [] := by
      intro hnil
      rw [hnil] at hvalue
      cases hvalue
    obtain ⟨hshorter, hmore⟩ := steady_readQuoted _ _ _ hvalue
    refine ⟨hshorter.trans ((skipSpaces_suffix rest').trans
      ((suffix_of_skipSpaces hequals).trans (readName_rest hname).1.suffix)), fun u => ?_⟩
    simp only [readAttribute, readName_append hname (ne_nil_of_skipSpaces hspaces),
      Option.bind_eq_bind, Option.bind_some,
      skipSpaces_append hspaces, hequals, List.cons_append, skipSpaces_append hvalueSpaces, hmore u]
  · cases h

theorem readAttribute_head {x : QName × List Char} (h : readAttribute s = some (x, r)) :
    s.head?.any isNamePart = true := by
  obtain ⟨⟨name, rest⟩, hname, _⟩ := Option.bind_eq_some_iff.mp h
  exact (readName_rest hname).2

/-- With an attribute in front there is another one to read. -/
theorem readAttributes_cons {x : QName × List Char} (hspace : s.head?.any isSpace = true)
    (h : readAttribute (skipSpaces s) = some (x, r)) (n : ℕ) :
    readAttributes (n + 1) s =
      (readAttributes n r).map fun (more, closed, rest) => (x :: more, closed, rest) := by
  have hhead := readAttribute_head h
  simp only [readAttributes]
  split
  · rename_i rest heq
    rw [heq] at hhead
    cases hhead
  · rename_i rest heq
    rw [heq] at hhead
    cases hhead
  · simp only [if_pos hspace, h, Option.bind_eq_bind, Option.bind_some]
    cases readAttributes n r with
    | none => rfl
    | some read => rfl

theorem readAttributes_rest {n : ℕ} {given : List (QName × List Char)} {closed : Bool}
    (h : readAttributes n s = some (given, closed, r)) :
    Rest r s ∧ ∀ u m, n ≤ m → readAttributes m (s ++ u) = some (given, closed, r ++ u) := by
  induction n generalizing s given with
  | zero => cases h
  | succ n ih =>
    have hend {t : List Char} (ht : skipSpaces s = t) (hr : Rest r t) : Rest r s :=
      hr.trans (ht ▸ skipSpaces_suffix s)
    simp only [readAttributes] at h
    split at h
    · rename_i rest hspaces
      obtain ⟨rfl, rfl, rfl⟩ : [] = given ∧ false = closed ∧ rest = r := by simpa using h
      refine ⟨hend hspaces (.cons '>' (List.suffix_refl _)), fun u m hm => ?_⟩
      obtain ⟨m, rfl⟩ := Nat.exists_eq_add_of_le' (Nat.le_trans (Nat.le_add_left 1 n) hm)
      simp only [readAttributes, skipSpaces_append (hspaces ▸ List.cons_ne_nil _ _), hspaces,
        List.cons_append]
    · rename_i rest hspaces
      split at h
      · rename_i rest'
        obtain ⟨rfl, rfl, rfl⟩ : [] = given ∧ true = closed ∧ rest' = r := by simpa using h
        refine ⟨hend hspaces (.cons '/' (List.suffix_cons '>' _)), fun u m hm => ?_⟩
        obtain ⟨m, rfl⟩ := Nat.exists_eq_add_of_le' (Nat.le_trans (Nat.le_add_left 1 n) hm)
        simp only [readAttributes, skipSpaces_append (hspaces ▸ List.cons_ne_nil _ _), hspaces,
          List.cons_append]
      · cases h
    · split at h
      · rename_i hspace
        obtain ⟨⟨first, rest⟩, hfirst, h⟩ := Option.bind_eq_some_iff.mp h
        obtain ⟨⟨more, closed', rest'⟩, hmore, h⟩ := Option.bind_eq_some_iff.mp h
        obtain ⟨rfl, rfl, rfl⟩ : first :: more = given ∧ closed' = closed ∧ rest' = r := by
          simpa using h
        obtain ⟨hrest, hlong⟩ := steady_readAttribute _ _ _ hfirst
        obtain ⟨hrest', hlonger⟩ := ih hmore
        refine ⟨hend rfl (hrest'.trans hrest.suffix), fun u m hm => ?_⟩
        obtain ⟨m, rfl⟩ := Nat.exists_eq_add_of_le' (Nat.le_trans (Nat.le_add_left 1 n) hm)
        have hne : skipSpaces s ≠ [] := by
          intro hnil
          rw [hnil] at hfirst
          cases hfirst
        rw [readAttributes_cons (any_head?_append hspace u) (skipSpaces_append hne ▸ hlong u),
          hlonger u m (Nat.le_of_succ_le_succ hm), Option.map_some]
      · cases h

/-! Tokens -/

theorem steady_readOpening : Steady readOpening := by
  intro s t r h
  obtain ⟨⟨name, rest⟩, hname, h⟩ := Option.bind_eq_some_iff.mp h
  obtain ⟨⟨given, closed, rest'⟩, hgiven, h⟩ := Option.bind_eq_some_iff.mp h
  obtain ⟨rfl, rfl⟩ := Prod.mk.inj (Option.some.inj h)
  obtain ⟨hrest, hlong⟩ := readAttributes_rest hgiven
  refine ⟨hrest.trans (readName_rest hname).1.suffix, fun u => ?_⟩
  have hne : rest ≠ [] := by
    rintro rfl
    exact absurd hrest.shorter (by simp)
  have hlimit : rest.length + 1 ≤ (rest ++ u).length + 1 := by
    rw [List.length_append]
    omega
  simp only [readOpening, readName_append hname hne, Option.bind_eq_bind, Option.bind_some,
    hlong u _ hlimit]

theorem steady_readClosing : Steady readClosing := by
  intro s t r h
  obtain ⟨⟨name, rest⟩, hname, h⟩ := Option.bind_eq_some_iff.mp h
  dsimp only at h
  split at h
  · rename_i rest' hspaces
    obtain ⟨rfl, rfl⟩ := Prod.mk.inj (Option.some.inj h)
    have hne : skipSpaces rest ≠ [] := by simp [hspaces]
    have hbehind : rest' <:+ rest := suffix_of_skipSpaces hspaces
    have hname' := (readName_rest hname).1
    refine ⟨⟨hbehind.trans hname'.suffix, Nat.lt_of_le_of_lt hbehind.length_le hname'.shorter⟩,
      fun u => ?_⟩
    simp only [readClosing, readName_append hname (ne_nil_of_skipSpaces hne), Option.bind_eq_bind,
      Option.bind_some, skipSpaces_append hne, hspaces, List.cons_append]
  · cases h

theorem cutAt_rest {mark left : List Char} (hmark : mark ≠ [])
    (h : cutAt mark s = some (left, r)) : Rest r s := by
  have hpos := List.length_pos_of_ne_nil hmark
  rw [cutAt_eq h]
  refine ⟨List.suffix_append _ _, ?_⟩
  simp only [List.length_append]
  omega

theorem steady_readComment : Steady readComment := by
  intro s t r h
  obtain ⟨⟨inside, rest⟩, hcut, h⟩ := Option.bind_eq_some_iff.mp h
  dsimp only at h
  split at h
  · rename_i hinside
    obtain ⟨rfl, rfl⟩ := Prod.mk.inj (Option.some.inj h)
    refine ⟨cutAt_rest (List.cons_ne_nil _ _) hcut, fun u => ?_⟩
    simp only [readComment, cutAt_append (List.cons_ne_nil _ _) hcut u, Option.bind_eq_bind,
      Option.bind_some, if_pos hinside]
  · cases h

theorem steady_readLiteral : Steady readLiteral := by
  intro s t r h
  obtain ⟨⟨inside, rest⟩, hcut, h⟩ := Option.bind_eq_some_iff.mp h
  dsimp only at h
  split at h
  · rename_i hinside
    obtain ⟨rfl, rfl⟩ := Prod.mk.inj (Option.some.inj h)
    refine ⟨cutAt_rest (List.cons_ne_nil _ _) hcut, fun u => ?_⟩
    simp only [readLiteral, cutAt_append (List.cons_ne_nil _ _) hcut u, Option.bind_eq_bind,
      Option.bind_some, if_pos hinside]
  · cases h

theorem steady_readInstruction : Steady readInstruction := by
  intro s t r h
  unfold readInstruction at h
  split at h
  · cases h
  · rename_i hstart
    obtain ⟨⟨inside, rest⟩, hcut, h⟩ := Option.bind_eq_some_iff.mp h
    dsimp only at h
    split at h
    · rename_i hinside
      obtain ⟨rfl, rfl⟩ := Prod.mk.inj (Option.some.inj h)
      have hspaces : skipSpaces (s.dropWhile isNamePart) ≠ [] := by
        intro hnil
        rw [hnil] at hcut
        cases hcut
      have hname : s.dropWhile isNamePart ≠ [] := ne_nil_of_skipSpaces hspaces
      have hsuffix : skipSpaces (s.dropWhile isNamePart) <:+ s :=
        (skipSpaces_suffix _).trans (List.dropWhile_suffix _)
      -- The mark that ends the instruction is not in the name of a declaration.
      have hmark : ∃ c ∈ s, c ∉ ['x', 'm', 'l', ' '] := by
        refine ⟨'?', hsuffix.subset ?_, by decide⟩
        rw [cutAt_eq hcut]
        simp
      have hne : s ≠ [] := by
        rintro rfl
        exact hname rfl
      refine ⟨(cutAt_rest (List.cons_ne_nil _ _) hcut).trans hsuffix, fun u => ?_⟩
      unfold readInstruction
      rw [startsWith_append hmark, List.head?_append_of_ne_nil _ hne, if_neg hstart,
        dropWhile_append hname, skipSpaces_append hspaces,
        cutAt_append (List.cons_ne_nil _ _) hcut]
      simp only [Option.bind_eq_bind, Option.bind_some, if_pos hinside]
    · cases h

/-- A token by the reader that reads it. -/
inductive Reads : List Char → Token → List Char → Prop
  | comment {s r : List Char} {t : Token} (h : readComment s = some (t, r)) :
      Reads ('<' :: '!' :: '-' :: '-' :: s) t r
  | literal {s r : List Char} {t : Token} (h : readLiteral s = some (t, r)) :
      Reads ('<' :: '!' :: '[' :: 'C' :: 'D' :: 'A' :: 'T' :: 'A' :: '[' :: s) t r
  | instruction {s r : List Char} {t : Token} (h : readInstruction s = some (t, r)) :
      Reads ('<' :: '?' :: s) t r
  | closing {s r : List Char} {t : Token} (h : readClosing s = some (t, r)) :
      Reads ('<' :: '/' :: s) t r
  | opening {s r : List Char} {t : Token} (h : readOpening s = some (t, r)) : Reads ('<' :: s) t r
  | text {s r : List Char} {t : Token} (hs : s.head? ≠ some '<') (h : readText s = some (t, r)) :
      Reads s t r

theorem readOpening_head {t : Token} (h : readOpening s = some (t, r)) :
    s.head?.any isNamePart = true := by
  obtain ⟨⟨name, rest⟩, hname, _⟩ := Option.bind_eq_some_iff.mp h
  exact (readName_rest hname).2

theorem next_opening (h : s.head?.any isNamePart = true) :
    Token.next ('<' :: s) = readOpening s := by
  cases s with
  | nil => cases h
  | cons c s =>
    have hpart : isNamePart c = true := by simpa using h
    have hne {d : Char} (hd : isNamePart d = false) : c ≠ d := by
      rintro rfl
      rw [hpart] at hd
      cases hd
    have hbang : c ≠ '!' := hne (by decide)
    have hquestion : c ≠ '?' := hne (by decide)
    have hslash : c ≠ '/' := hne (by decide)
    unfold Token.next
    split <;> simp_all

theorem next_text (h : s.head? ≠ some '<') : Token.next s = readText s := by
  cases s with
  | nil => rfl
  | cons c s =>
    have hne : c ≠ '<' := by simpa using h
    unfold Token.next
    split <;> simp_all

theorem next_eq_some {t : Token} : Token.next s = some (t, r) ↔ Reads s t r := by
  constructor
  · intro h
    unfold Token.next at h
    split at h
    · exact .comment h
    · exact .literal h
    · exact .instruction h
    · exact .closing h
    · exact .opening h
    · rename_i hother
      refine .text (fun hhead => ?_) h
      obtain ⟨rest, rfl⟩ := List.head?_eq_some_iff.mp hhead
      exact hother rest rfl
  · intro h
    cases h with
    | comment h => exact h
    | literal h => exact h
    | instruction h => exact h
    | closing h => exact h
    | opening h => rw [next_opening (readOpening_head h), h]
    | text hs h => rw [next_text hs, h]

/-- Characters that may stand in a run of text. -/
def plain (raw : List Char) : Bool := raw.all isAllowed && !holds raw [']', ']', '>']

theorem plain_append_right {raw raw' : List Char} (h : plain (raw ++ raw') = true) :
    plain raw' = true := by
  simp only [plain, List.all_append, Bool.and_eq_true, Bool.not_eq_true'] at h ⊢
  refine ⟨h.1.2, ?_⟩
  by_contra hholds
  rw [holds_append_right raw (by simpa using hholds)] at h
  exact absurd h.2 (by decide)

theorem readText_eq_some {t : Token} : readText s = some (t, r) ↔
    plain (s.takeWhile (· != '<')) = true ∧ t = .text (s.takeWhile (· != '<')) ∧
      r = s.dropWhile (· != '<') := by
  unfold readText plain
  dsimp only
  split
  · rename_i hplain
    simp only [Option.some.injEq, Prod.mk.injEq, hplain, true_and]
    exact and_congr eq_comm eq_comm
  · rename_i hplain
    simp [hplain]

/-- The token of a run of text, of no matter what characters. -/
theorem reads_text {raw : List Char} : Reads s (.text raw) r ↔
    s.head? ≠ some '<' ∧ plain raw = true ∧ raw = s.takeWhile (· != '<') ∧
      r = s.dropWhile (· != '<') := by
  constructor
  · intro h
    cases h with
    | comment h => simp [readComment, Option.bind_eq_some_iff] at h
    | literal h => simp [readLiteral, Option.bind_eq_some_iff] at h
    | instruction h =>
      unfold readInstruction at h
      split at h <;> simp [Option.bind_eq_some_iff] at h
    | closing h =>
      obtain ⟨_, _, h⟩ := Option.bind_eq_some_iff.mp h
      dsimp only at h
      split at h <;> cases h
    | opening h => simp [readOpening, Option.bind_eq_some_iff] at h
    | text hs h =>
      obtain ⟨hplain, heq, hr⟩ := readText_eq_some.mp h
      cases heq
      exact ⟨hs, hplain, rfl, hr⟩
  · rintro ⟨hs, hplain, rfl, rfl⟩
    exact .text hs (readText_eq_some.mpr ⟨hplain, rfl, rfl⟩)

theorem Reads.rest {t : Token} (h : Reads s t r) (hs : s ≠ []) : Rest r s := by
  cases h with
  | comment h =>
    exact (steady_readComment _ _ _ h).1.trans (List.suffix_append ['<', '!', '-', '-'] _)
  | literal h =>
    exact (steady_readLiteral _ _ _ h).1.trans
      (List.suffix_append ['<', '!', '[', 'C', 'D', 'A', 'T', 'A', '['] _)
  | instruction h =>
    exact (steady_readInstruction _ _ _ h).1.trans (List.suffix_append ['<', '?'] _)
  | closing h => exact (steady_readClosing _ _ _ h).1.trans (List.suffix_append ['<', '/'] _)
  | opening h => exact (steady_readOpening _ _ _ h).1.trans (List.suffix_cons '<' _)
  | text hhead h =>
    obtain ⟨_, _, rfl⟩ := readText_eq_some.mp h
    obtain ⟨c, rest, rfl⟩ := List.exists_cons_of_ne_nil hs
    rw [List.dropWhile_cons_of_pos (by simpa using hhead)]
    exact .cons c (List.dropWhile_suffix _)

/-- A token is read in the same way in front of more, unless it is a text at the very end. -/
theorem Reads.append {t : Token} (h : Reads s t r) (hmore : r ≠ [] ∨ ∀ raw, t ≠ .text raw)
    (u : List Char) : Reads (s ++ u) t (r ++ u) := by
  cases h with
  | comment h => exact .comment ((steady_readComment _ _ _ h).2 u)
  | literal h => exact .literal ((steady_readLiteral _ _ _ h).2 u)
  | instruction h => exact .instruction ((steady_readInstruction _ _ _ h).2 u)
  | closing h => exact .closing ((steady_readClosing _ _ _ h).2 u)
  | opening h => exact .opening ((steady_readOpening _ _ _ h).2 u)
  | text hhead h =>
    obtain ⟨hplain, rfl, rfl⟩ := readText_eq_some.mp h
    have hrest : s.dropWhile (· != '<') ≠ [] := hmore.resolve_right fun hother => hother _ rfl
    refine reads_text.mpr ⟨?_, hplain, (takeWhile_append hrest).symm, (dropWhile_append hrest).symm⟩
    cases s with
    | nil => exact absurd rfl hrest
    | cons c s => exact hhead

end Harvest.Reading
