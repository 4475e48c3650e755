import Harvest.Proofs.Reading
import Mathlib.Data.List.TakeWhile

/-!
Texts in two parts. The tokens of a text are those of its parts one after the other, or else the
parting goes through a run of text, which then is two. A comment may be put where a text is parted,
and it is one token more. A document that is read only in part has its prolog in the part that is
read, and what is left of the prolog goes on with the rest.
-/
namespace Harvest.Parting

open Xml Text Reading

variable {s a b u : List Char} {ts us : List Token}

/-! Sequences of tokens -/

/-- A text with all its tokens. -/
inductive Tokens : List Char → List Token → Prop
  | nil : Tokens [] []
  | cons {s r : List Char} {t : Token} {ts : List Token} (hs : s ≠ []) (h : Reads s t r)
      (hrest : Tokens r ts) : Tokens s (t :: ts)

theorem upTo_eq_some {n : ℕ} (hn : s.length ≤ n) : Token.upTo n s = some ts ↔ Tokens s ts := by
  constructor
  · intro h
    induction n generalizing s ts with
    | zero =>
      obtain rfl := List.length_eq_zero_iff.mp (Nat.le_zero.mp hn)
      obtain rfl := Option.some.inj h
      exact .nil
    | succ n ih =>
      cases s with
      | nil =>
        obtain rfl := Option.some.inj h
        exact .nil
      | cons c s =>
        simp only [Token.upTo] at h
        split at h
        · rename_i t r hnext
          obtain ⟨more, hmore, rfl⟩ := Option.map_eq_some_iff.mp h
          have hreads := next_eq_some.mp hnext
          have hshorter := (hreads.rest (List.cons_ne_nil c s)).shorter
          exact .cons (List.cons_ne_nil c s) hreads (ih (by omega) hmore)
        · cases h
  · intro h
    induction h generalizing n with
    | nil => cases n <;> rfl
    | @cons s r t ts hs h _ ih =>
      have hshorter := (h.rest hs).shorter
      obtain ⟨c, s, rfl⟩ := List.exists_cons_of_ne_nil hs
      obtain ⟨n, rfl⟩ := Nat.exists_eq_add_of_le' (Nat.le_trans (Nat.le_add_left 1 s.length) hn)
      have hr : r.length ≤ n := by
        rw [List.length_cons] at hshorter hn
        omega
      simp only [Token.upTo, next_eq_some.mpr h, ih hr, Option.map_some]

theorem all_eq_some : Token.all s = some ts ↔ Tokens s ts := upTo_eq_some (Nat.le_refl _)

theorem Tokens.unique (h : Tokens s ts) (h' : Tokens s us) : ts = us :=
  Option.some.inj ((all_eq_some.mpr h).symm.trans (all_eq_some.mpr h'))

theorem Tokens.first (h : Tokens s us) (hs : s ≠ []) :
    ∃ t r more, us = t :: more ∧ Reads s t r ∧ Tokens r more := by
  cases h with
  | nil => exact absurd rfl hs
  | cons _ hreads hrest => exact ⟨_, _, _, rfl, hreads, hrest⟩

/-- The rest of a text whose first token is known. -/
theorem Tokens.rest {t : Token} {r : List Char} (h : Tokens s us) (hs : s ≠ [])
    (hfirst : Reads s t r) : ∃ more, us = t :: more ∧ Tokens r more := by
  obtain ⟨t', r', more, rfl, hreads, hrest⟩ := h.first hs
  have hsame := (next_eq_some.mpr hreads).symm.trans (next_eq_some.mpr hfirst)
  obtain ⟨rfl, rfl⟩ := Prod.mk.inj (Option.some.inj hsame)
  exact ⟨more, rfl, hrest⟩

/-- A run of text that ends a document. -/
theorem whole_of_reads_text {raw : List Char} (h : Reads s (.text raw) []) :
    raw = s ∧ ∀ c ∈ s, (c != '<') = true := by
  obtain ⟨_, _, rfl, hdrop⟩ := reads_text.mp h
  have hall : ∀ c ∈ s, (c != '<') = true := List.dropWhile_eq_nil_iff.mp hdrop.symm
  exact ⟨List.takeWhile_eq_self_iff.mpr hall, hall⟩

theorem text_or_more {t : Token} {r : List Char} :
    (r ≠ [] ∨ ∀ raw, t ≠ .text raw) ∨ r = [] ∧ ∃ raw, t = .text raw := by
  by_cases hr : r = []
  · cases t with
    | text raw => exact .inr ⟨hr, raw, rfl⟩
    | opening | closing | literal | remark => exact .inl (.inr nofun)
  · exact .inl (.inl hr)

theorem Tokens.append (ha : Tokens a ts) (hb : Tokens b us) (hhead : b.head? = some '<') :
    Tokens (a ++ b) (ts ++ us) := by
  induction ha with
  | nil => exact hb
  | @cons s r t ts hs h hrest ih =>
    have hne : s ++ b ≠ [] := List.append_ne_nil_of_left_ne_nil hs b
    rcases text_or_more (t := t) (r := r) with hmore | ⟨rfl, raw, rfl⟩
    · exact .cons hne (h.append hmore b) ih
    · obtain ⟨rfl, hall⟩ := whole_of_reads_text h
      obtain ⟨hstart, hplain, _, _⟩ := reads_text.mp h
      obtain ⟨rest, rfl⟩ := List.head?_eq_some_iff.mp hhead
      refine .cons hne (reads_text.mpr ⟨?_, hplain, ?_, ?_⟩) ih
      · rwa [List.head?_append_of_ne_nil _ hs]
      · rw [List.takeWhile_append_of_pos hall]
        simp
      · rw [List.dropWhile_append_of_pos hall]
        simp

/-- A comment or processing instruction stands apart from what is around it. -/
theorem Tokens.insert {c : List Char} (ha : Tokens a ts) (hb : Tokens b us)
    (hc : Token.next c = some (.remark, [])) : Tokens (a ++ c ++ b) (ts ++ .remark :: us) := by
  have hreads := next_eq_some.mp hc
  have hne : c ≠ [] := by
    rintro rfl
    cases hc
  have hhead : c.head? = some '<' := by
    cases hreads with
    | comment | literal | instruction | closing | opening => rfl
    | text _ h => cases (readText_eq_some.mp h).2.1
  rw [List.append_assoc]
  refine ha.append (.cons (List.append_ne_nil_of_left_ne_nil hne b)
    (hreads.append (.inr nofun) b) hb) ?_
  rwa [List.head?_append_of_ne_nil _ hne]

/-- The tokens of two parts, and those of the whole. The parting is between two tokens, or in a run
of text. -/
inductive Parts : List Token → List Token → List Token → Prop
  | between (ts rest : List Token) : Parts ts rest (ts ++ rest)
  | inText (before : List Token) (raw raw' : List Char) (more : List Token) :
      Parts (before ++ [.text raw]) (.text raw' :: more) (before ++ .text (raw ++ raw') :: more)

theorem Parts.cons {ts rest us : List Token} (h : Parts ts rest us) (t : Token) :
    Parts (t :: ts) rest (t :: us) := by
  cases h with
  | between => exact .between (t :: ts) rest
  | inText before raw raw' more => exact .inText (t :: before) raw raw' more

theorem Tokens.part (ha : Tokens a ts) (h : Tokens (a ++ b) us) :
    ∃ rest, Tokens b rest ∧ Parts ts rest us := by
  induction ha generalizing us with
  | nil => exact ⟨us, h, .between [] us⟩
  | @cons s r t ts hs hfirst hrest ih =>
    have hne : s ++ b ≠ [] := List.append_ne_nil_of_left_ne_nil hs b
    rcases text_or_more (t := t) (r := r) with hmore | ⟨rfl, raw, rfl⟩
    · obtain ⟨us, rfl, hrest'⟩ := h.rest hne (hfirst.append hmore b)
      obtain ⟨rest, hb, hparts⟩ := ih hrest'
      exact ⟨rest, hb, hparts.cons t⟩
    · obtain ⟨rfl, hall⟩ := whole_of_reads_text hfirst
      obtain rfl := hrest.unique .nil
      have hstart : (raw ++ b).head? ≠ some '<' := by
        rw [List.head?_append_of_ne_nil _ hs]
        exact (reads_text.mp hfirst).1
      obtain ⟨t', r', more, rfl, hreads, hmore⟩ := h.first hne
      have htext := next_eq_some.mpr hreads
      rw [next_text hstart] at htext
      obtain ⟨hplain, rfl, rfl⟩ := readText_eq_some.mp htext
      rw [List.takeWhile_append_of_pos hall] at hplain ⊢
      rw [List.dropWhile_append_of_pos hall] at hmore
      have hbetween (htake : b.takeWhile (· != '<') = []) :
          Parts [.text raw] more (.text (raw ++ b.takeWhile (· != '<')) :: more) := by
        rw [htake, List.append_nil]
        exact .between [.text raw] more
      cases b with
      | nil => exact ⟨more, hmore, hbetween rfl⟩
      | cons c b =>
        by_cases hc : c = '<'
        · subst hc
          exact ⟨more, by simpa using hmore, hbetween (by simp)⟩
        · refine ⟨_, .cons (List.cons_ne_nil c b) ?_ hmore, .inText [] raw _ more⟩
          exact reads_text.mpr ⟨by simpa using hc, plain_append_right hplain, rfl, rfl⟩

/-! The prolog -/

/-- What a part of the declaration leaves goes on with the text, if the end of the declaration is
still to come. -/
def Carries (part : List Char → Option (List Char)) : Prop :=
  ∀ s r, part s = some r → '?' ∈ r → '?' ∈ s ∧ ∀ u, part (s ++ u) = some (r ++ u)

theorem carries_declarationGap : Carries declarationGap := by
  intro s r h hend
  have hr : r ≠ [] := List.ne_nil_of_mem hend
  unfold declarationGap at h
  split at h
  · rename_i hspace
    obtain rfl := Option.some.inj h
    refine ⟨(skipSpaces_suffix s).subset hend, fun u => ?_⟩
    rw [declarationGap, if_pos (any_head?_append hspace u), skipSpaces_append hr]
  · rename_i hspace
    split at h
    · rename_i hclosed
      obtain rfl := Option.some.inj h
      refine ⟨hend, fun u => ?_⟩
      have hspace' : ¬(s ++ u).head?.any isSpace = true := by
        rwa [List.head?_append_of_ne_nil _ hr]
      have hempty : s.isEmpty = false := by simpa using hr
      rw [hempty, Bool.false_or, startsWith] at hclosed
      have hlength := (List.isPrefixOf_iff_prefix.mp hclosed).length_le
      rw [declarationGap, if_neg hspace', startsWith, isPrefixOf_append hlength, hclosed,
        Bool.or_true, if_pos rfl]
    · cases h

/-- What follows an attribute. -/
def pastAttribute (s : List Char) : Option (List Char) := (readAttribute s).map Prod.snd

theorem carries_pastAttribute : Carries pastAttribute := by
  intro s r h hend
  obtain ⟨⟨x, rest⟩, hread, rfl⟩ := Option.map_eq_some_iff.mp h
  obtain ⟨hrest, hmore⟩ := steady_readAttribute _ _ _ hread
  exact ⟨hrest.suffix.subset hend, fun u => by rw [pastAttribute, hmore u, Option.map_some]⟩

/-- One part of the declaration behind another. -/
def inTurn (first second : List Char → Option (List Char)) (s : List Char) : Option (List Char) :=
  (first s).bind second

theorem Carries.inTurn {first second : List Char → Option (List Char)} (hfirst : Carries first)
    (hsecond : Carries second) : Carries (inTurn first second) := by
  intro s r h hend
  obtain ⟨t, ht, h⟩ := Option.bind_eq_some_iff.mp h
  obtain ⟨hend', hmore⟩ := hsecond t r h hend
  obtain ⟨hend'', hmore'⟩ := hfirst s t ht hend'
  exact ⟨hend'', fun u => by rw [Parting.inTurn, hmore' u, Option.bind_some, hmore u]⟩

/-- A part of the declaration that is there if its word is, and else `other`. -/
def behind (word : List Char) (part other : List Char → Option (List Char)) (s : List Char) :
    Option (List Char) :=
  if startsWith s word then part s else other s

theorem Carries.behind {part other : List Char → Option (List Char)} (hpart : Carries part)
    (hother : Carries other) {word : List Char} (hword : '?' ∉ word) :
    Carries (behind word part other) := by
  intro s r h hend
  unfold Parting.behind at h ⊢
  split at h
  · rename_i hstart
    obtain ⟨hend', hmore⟩ := hpart s r h hend
    refine ⟨hend', fun u => ?_⟩
    rw [startsWith_append ⟨'?', hend', hword⟩, if_pos hstart, hmore u]
  · rename_i hstart
    obtain ⟨hend', hmore⟩ := hother s r h hend
    refine ⟨hend', fun u => ?_⟩
    rw [startsWith_append ⟨'?', hend', hword⟩, if_neg hstart, hmore u]

theorem carries_some : Carries some := by
  intro s r h hend
  obtain rfl := Option.some.inj h
  exact ⟨hend, fun u => rfl⟩

theorem carries_none : Carries fun _ => none := nofun

/-- The declaration up to the blanks before its end. -/
def declared : List Char → Option (List Char) :=
  inTurn declarationGap <|
    behind "version".toList
      (inTurn pastAttribute <| inTurn declarationGap <|
        inTurn (behind "encoding".toList (inTurn pastAttribute declarationGap) some)
          (behind "standalone".toList pastAttribute some))
      fun _ => none

theorem pastAttribute_bind (s : List Char) (next : List Char → Option (List Char)) :
    (pastAttribute s).bind next = (readAttribute s).bind fun read => next read.2 := by
  rw [pastAttribute, Option.bind_map]
  rfl

theorem behind_bind (word : List Char) (part other next : List Char → Option (List Char))
    (s : List Char) : (behind word part other s).bind next =
      if startsWith s word then (part s).bind next else (other s).bind next :=
  apply_ite (Option.bind · next) _ _ _

theorem inTurn_bind (first second next : List Char → Option (List Char)) (s : List Char) :
    (inTurn first second s).bind next = (first s).bind fun t => (second t).bind next :=
  Option.bind_assoc _ _ _

theorem readDeclaration_eq (s : List Char) :
    readDeclaration s = (declared s).bind fun t => after? ['?', '>'] (skipSpaces t) := by
  simp only [declared, inTurn_bind, behind_bind, pastAttribute_bind, Option.bind_some,
    Option.bind_none]
  rfl

theorem readDeclaration_append {r : List Char} (h : readDeclaration s = some r) (u : List Char) :
    readDeclaration (s ++ u) = some (r ++ u) := by
  rw [readDeclaration_eq] at h
  obtain ⟨t, ht, h⟩ := Option.bind_eq_some_iff.mp h
  have hend : '?' ∈ skipSpaces t := by
    rw [after?_eq h]
    simp
  have hcarries : Carries declared :=
    carries_declarationGap.inTurn <| Carries.behind
      (carries_pastAttribute.inTurn <| carries_declarationGap.inTurn <|
        (Carries.behind (carries_pastAttribute.inTurn carries_declarationGap) carries_some
            (by decide)).inTurn
          (Carries.behind carries_pastAttribute carries_some (by decide)))
      carries_none (by decide)
  obtain ⟨_, hmore⟩ := hcarries s t ht ((skipSpaces_suffix t).subset hend)
  rw [readDeclaration_eq, hmore u, Option.bind_some, skipSpaces_append (List.ne_nil_of_mem hend),
    after?_append h u]

/-- A part of the mark of a declaration is not a document, nor the start of one. -/
theorem mark_not_tokens {n : ℕ} (hn : n < 6) (hts : Tokens ("<?xml ".toList.take n) ts) :
    ts = [] := by
  have hmark : ∀ n < 6, (Token.all ("<?xml ".toList.take n)).all List.isEmpty = true := by decide
  have hnone := hmark n hn
  rw [all_eq_some.mpr hts] at hnone
  simpa using hnone

/-- The prolog of a text whose first part is a document read in part is in that part. -/
theorem skipProlog_append (h : skipProlog a = some s) (hs : Tokens s ts) (hts : ts ≠ [])
    (u : List Char) : skipProlog (a ++ u) = some (s ++ u) := by
  have hne : a ≠ [] := by
    rintro rfl
    obtain rfl := Option.some.inj h
    exact hts (hs.unique .nil)
  have hstart : (after? ['\uFEFF'] (a ++ u)).getD (a ++ u) =
      (after? ['\uFEFF'] a).getD a ++ u := by
    obtain ⟨c, a, rfl⟩ := List.exists_cons_of_ne_nil hne
    cases hbom : after? ['\uFEFF'] (c :: a) with
    | some rest => rw [after?_append hbom u]; rfl
    | none =>
      have hc : '\uFEFF' ≠ c := by simpa [after?] using hbom
      simp [after?, hc]
  unfold skipProlog at h ⊢
  simp only [hstart] at h ⊢
  generalize (after? ['\uFEFF'] a).getD a = d at h ⊢
  split at h
  · rename_i hmark
    have hlength : "<?xml ".toList.length ≤ d.length :=
      (List.isPrefixOf_iff_prefix.mp hmark).length_le
    have hmark' : startsWith (d ++ u) "<?xml ".toList = true :=
      (isPrefixOf_append hlength).trans hmark
    rw [if_pos hmark', List.drop_append_of_le_length (Nat.le_trans (by decide) hlength),
      readDeclaration_append h u]
  · rename_i hmark
    obtain rfl := Option.some.inj h
    rw [if_neg]
    intro hlong
    -- Only a part of the mark could become the mark when it goes on.
    rcases List.prefix_or_prefix_of_prefix (List.isPrefixOf_iff_prefix.mp hlong)
      (List.prefix_append d u) with hshort | hpart
    · exact hmark (List.isPrefixOf_iff_prefix.mpr hshort)
    · have hlength : d.length < 6 := by
        refine Nat.lt_of_le_of_ne hpart.length_le fun hsame => hmark ?_
        rw [hpart.eq_of_length hsame]
        rfl
      rw [List.prefix_iff_eq_take.mp hpart] at hs
      exact hts (mark_not_tokens hlength hs)

end Harvest.Parting
