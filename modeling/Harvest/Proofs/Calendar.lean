import Harvest.Datestamp
import Harvest.Proofs.Octets
import Mathlib.Data.List.Induction
import Mathlib.Data.List.TakeWhile

/-!
Which texts are dates. The form of a date lets digits of any script pass, and the reading stops at
any that is not ASCII, so that a text has the form and is read to its end exactly if it spells the
numbers. Those that spell a day of the calendar, or such a day and a time, are the dates.
-/
namespace Harvest.Calendar

open Text Datestamp

/-! The calendar -/

def IsLeap (year : ℕ) : Prop := 4 ∣ year ∧ (100 ∣ year → 400 ∣ year)

instance (year : ℕ) : Decidable (IsLeap year) := inferInstanceAs (Decidable (_ ∧ _))

def monthLengths (year : ℕ) : List ℕ :=
  [31, if IsLeap year then 29 else 28, 31, 30, 31, 30, 31, 31, 30, 31, 30, 31]

/-- A day that exists. -/
structure Day where
  year : ℕ
  month : ℕ
  day : ℕ
  year_le : year ≤ 9999
  month_pos : 1 ≤ month
  day_pos : 1 ≤ day
  day_le : ∃ length, (monthLengths year)[month - 1]? = some length ∧ day ≤ length

/-- A time of day, perhaps in a leap second. -/
structure Time where
  hour : ℕ
  minute : ℕ
  second : ℕ
  hour_le : hour ≤ 23
  minute_le : minute ≤ 59
  second_le : second ≤ 60

/-- A number in so many ASCII digits. -/
def digits : ℕ → ℕ → List Char
  | 0, _ => []
  | width + 1, n => digits width (n / 10) ++ [Nat.digitChar (n % 10)]

def Day.chars (d : Day) : List Char :=
  digits 4 d.year ++ '-' :: digits 2 d.month ++ '-' :: digits 2 d.day

def Time.chars (t : Time) : List Char :=
  'T' :: digits 2 t.hour ++ ':' :: digits 2 t.minute ++ ':' :: digits 2 t.second ++ ['Z']

/-- A day that exists, and perhaps a time of it, as the protocol writes them. -/
inductive IsDate : String → Prop
  | day (d : Day) : IsDate (String.ofList d.chars)
  | moment (d : Day) (t : Time) : IsDate (String.ofList (d.chars ++ t.chars))

theorem isLeapYear_iff (year : ℕ) : isLeapYear year = true ↔ IsLeap year := by
  simp only [isLeapYear, IsLeap, Bool.and_eq_true, Bool.or_eq_true, beq_iff_eq, bne_iff_ne]
  omega

theorem daysInMonth_of_gt (year : ℕ) {month : ℕ} (h : 12 < month) : daysInMonth year month = 0 := by
  have hnot (m : ℕ) (hm : m ≤ 12) : (month == m) = false := beq_eq_false_iff_ne.mpr (by omega)
  simp [daysInMonth, hnot, Nat.not_le.mpr h]

theorem daysInMonth_eq (year : ℕ) {month : ℕ} (hpos : 1 ≤ month) :
    daysInMonth year month = ((monthLengths year)[month - 1]?).getD 0 := by
  have hleap : (if isLeapYear year then 29 else 28) = if IsLeap year then 29 else 28 :=
    if_congr (isLeapYear_iff year) rfl rfl
  by_cases hlast : month ≤ 12
  · interval_cases month <;> simp [daysInMonth, monthLengths, hleap]
  · have hnone : (monthLengths year)[month - 1]? = none := by
      rw [List.getElem?_eq_none_iff]
      change 12 ≤ month - 1
      omega
    rw [hnone, daysInMonth_of_gt year (by omega), Option.getD_none]

theorem isDay_iff (year month day : ℕ) : isDay year month day = true ↔
    1 ≤ month ∧ 1 ≤ day ∧
      ∃ length, (monthLengths year)[month - 1]? = some length ∧ day ≤ length := by
  simp only [isDay, Bool.and_eq_true, decide_eq_true_eq]
  cases month with
  | zero => simp [daysInMonth]; omega
  | succ m =>
    rw [daysInMonth_eq year (Nat.succ_pos m)]
    cases (monthLengths year)[m + 1 - 1]? with
    | none => simp; omega
    | some length => simp

/-! Numbers in digits -/

theorem isDigit_iff (c : Char) : c.isDigit = true ↔ 48 ≤ c.toNat ∧ c.toNat ≤ 57 := by
  simp only [Char.isDigit, Bool.and_eq_true, decide_eq_true_eq, ge_iff_le, UInt32.le_iff_toNat_le]
  exact Iff.rfl

theorem isDigit_digitChar {d : ℕ} (h : d < 10) : (Nat.digitChar d).isDigit = true := by
  rw [isDigit_iff, Nat.toNat_digitChar_of_lt_ten h]
  omega

theorem digit?_eq_some_iff {c : Char} {d : ℕ} :
    digit? c = some d ↔ d < 10 ∧ c = Nat.digitChar d := by
  rw [digit?]
  constructor
  · intro h
    split at h
    · next hc =>
      rw [isDigit_iff] at hc
      rw [← Option.some.inj h]
      refine ⟨by omega, Char.toNat_inj.mp ?_⟩
      rw [Nat.toNat_digitChar_of_lt_ten (by omega)]
      omega
    · cases h
  · rintro ⟨hd, rfl⟩
    rw [if_pos (isDigit_digitChar hd), Nat.toNat_digitChar_of_lt_ten hd, Nat.add_sub_cancel_left]

theorem number?_append_single (l : List Char) (c : Char) :
    number? (l ++ [c]) = (number? l).bind fun n => (digit? c).map fun d => 10 * n + d := by
  rw [number?, List.foldlM_append]
  simp [number?]

theorem length_digits (width n : ℕ) : (digits width n).length = width := by
  induction width generalizing n with
  | zero => rfl
  | succ width ih => rw [digits, List.length_append, ih, List.length_singleton]

/-- A number in digits is read as it was written if it is not too wide. -/
theorem number?_digits {width n : ℕ} (hn : n < 10 ^ width) : number? (digits width n) = some n := by
  induction width generalizing n with
  | zero =>
    have hzero : n = 0 := by simpa using hn
    rw [hzero]
    rfl
  | succ width ih =>
    rw [Nat.pow_succ] at hn
    have hdigit : digit? (Nat.digitChar (n % 10)) = some (n % 10) :=
      digit?_eq_some_iff.mpr ⟨by omega, rfl⟩
    rw [digits, number?_append_single, ih (by omega), Option.bind_some, hdigit, Option.map_some]
    congr 1
    omega

/-- What is read as a number is the number in digits. -/
theorem eq_digits_of_number? {l : List Char} {n : ℕ} (h : number? l = some n) :
    l = digits l.length n ∧ n < 10 ^ l.length := by
  induction l using List.reverseRecOn generalizing n with
  | nil =>
    rw [← Option.some.inj h]
    exact ⟨rfl, by simp⟩
  | append_singleton l c ih =>
    rw [number?_append_single] at h
    obtain ⟨m, hm, h⟩ := Option.bind_eq_some_iff.mp h
    obtain ⟨d, hd, rfl⟩ := Option.map_eq_some_iff.mp h
    obtain ⟨hlt, rfl⟩ := digit?_eq_some_iff.mp hd
    obtain ⟨hl, hm'⟩ := ih hm
    rw [List.length_append, List.length_singleton, digits, Nat.pow_succ]
    have hdiv : (10 * m + d) / 10 = m := by omega
    have hmod : (10 * m + d) % 10 = d := by omega
    rw [hdiv, hmod, ← hl]
    exact ⟨rfl, by omega⟩

theorem isDigit_of_mem_digits {width n : ℕ} : ∀ c ∈ digits width n, c.isDigit = true := by
  induction width generalizing n with
  | zero => exact fun c hc => absurd hc List.not_mem_nil
  | succ width ih =>
    intro c hc
    rw [digits, List.mem_append, List.mem_singleton] at hc
    rcases hc with hc | rfl
    · exact ih c hc
    · exact isDigit_digitChar (Nat.mod_lt n (by decide))

/-! Texts by their parts -/

/-- The text spells the numbers in the form of the parts. -/
inductive Spells : List Part → List ℕ → List Char → Prop
  | nil : Spells [] [] []
  | number {width n : ℕ} {parts : List Part} {ns : List ℕ} {s : List Char}
      (hn : n < 10 ^ width) (h : Spells parts ns s) :
      Spells (.number width :: parts) (n :: ns) (digits width n ++ s)
  | mark {c : Char} {parts : List Part} {ns : List ℕ} {s : List Char} (h : Spells parts ns s) :
      Spells (.mark c :: parts) ns (c :: s)

/-- A number ends where the text does or at a mark, which is no digit in any script. -/
inductive Parted : List Part → Prop
  | nil : Parted []
  | number {width : ℕ} (hwidth : 0 < width) : Parted [.number width]
  | numberMark {width : ℕ} {c : Char} {parts : List Part} (hwidth : 0 < width)
      (hmark : isDecimal c = false) (h : Parted parts) : Parted (.number width :: .mark c :: parts)

theorem dayParts_parted : Parted dayParts :=
  .numberMark (by decide) (by decide) (.numberMark (by decide) (by decide) (.number (by decide)))

theorem momentParts_parted : Parted momentParts :=
  .numberMark (by decide) (by decide) <| .numberMark (by decide) (by decide) <|
    .numberMark (by decide) (by decide) <| .numberMark (by decide) (by decide) <|
    .numberMark (by decide) (by decide) <| .numberMark (by decide) (by decide) .nil

theorem Parted.pos {parts : List Part} (h : Parted parts) {width : ℕ}
    (hmem : .number width ∈ parts) : 0 < width := by
  induction h with
  | nil => cases hmem
  | number hwidth =>
    obtain rfl := Part.number.inj (List.mem_singleton.mp hmem)
    exact hwidth
  | numberMark hwidth _ _ ih =>
    simp only [List.mem_cons, Part.number.injEq, reduceCtorEq, false_or] at hmem
    rcases hmem with rfl | hmem
    · exact hwidth
    · exact ih hmem

theorem isDecimal_of_isDigit {c : Char} (h : c.isDigit = true) : isDecimal c = true := by
  rw [isDigit_iff] at h
  rw [isDecimal, List.any_eq_true]
  refine ⟨0x30, by decide, ?_⟩
  simp only [Bool.and_eq_true, decide_eq_true_eq]
  omega

/-- If digits are followed by no digit of another script, all of them are ASCII. -/
theorem takeWhile_digits {width : ℕ} {s : List Char} (hall : (s.take width).all isDecimal = true)
    (hstop : ∀ c ∈ (s.drop ((s.take width).takeWhile Char.isDigit).length).head?,
      isDecimal c = false) : (s.take width).takeWhile Char.isDigit = s.take width := by
  have hparts : (s.take width).takeWhile Char.isDigit ++
      ((s.take width).dropWhile Char.isDigit ++ s.drop width) = s := by
    rw [← List.append_assoc, List.takeWhile_append_dropWhile, List.take_append_drop]
  have hdrop : s.drop ((s.take width).takeWhile Char.isDigit).length =
      (s.take width).dropWhile Char.isDigit ++ s.drop width :=
    (congrArg (List.drop _) hparts.symm).trans List.drop_left
  cases hrest : (s.take width).dropWhile Char.isDigit with
  | nil =>
    have hwhole := List.takeWhile_append_dropWhile (p := Char.isDigit) (l := s.take width)
    rwa [hrest, List.append_nil] at hwhole
  | cons c rest =>
    -- The reading stops at `c`, a digit of another script, and nothing behind a number begins so.
    have hmem : c ∈ s.take width :=
      (List.dropWhile_sublist Char.isDigit).subset (hrest ▸ List.mem_cons_self)
    have hdecimal := List.all_eq_true.mp hall c hmem
    have hnot := hstop c (by rw [hdrop, hrest]; rfl)
    rw [hdecimal] at hnot
    cases hnot

/-- A number that is read where it has its form, and behind which no other digit is read. -/
theorem spells_number {width : ℕ} {parts : List Part} {s : List Char} {ns : List ℕ}
    (hform : hasForm (.number width :: parts) s = true)
    (hread : readParts (.number width :: parts) s = some ns)
    (hstop : ∀ t more, readParts parts t = some more → ∀ c ∈ t.head?, isDecimal c = false)
    (hspells : ∀ more, hasForm parts (s.drop width) = true →
      readParts parts (s.drop width) = some more → Spells parts more (s.drop width)) :
    Spells (.number width :: parts) ns s := by
  simp only [hasForm, Bool.and_eq_true, beq_iff_eq] at hform
  obtain ⟨⟨hlength, hall⟩, hform⟩ := hform
  rw [readParts] at hread
  split at hread
  · cases hread
  · obtain ⟨n, hn, hread⟩ := Option.bind_eq_some_iff.mp hread
    obtain ⟨more, hmore, rfl⟩ := Option.map_eq_some_iff.mp hread
    have hwhole := takeWhile_digits hall (hstop _ more hmore)
    rw [hwhole] at hn hmore
    rw [hlength] at hmore
    obtain ⟨hdigits, hlt⟩ := eq_digits_of_number? hn
    rw [hlength] at hdigits hlt
    have hnumber := Spells.number hlt (hspells more hform hmore)
    rwa [← hdigits, List.take_append_drop] at hnumber

theorem spells_mark {c : Char} {parts : List Part} {s : List Char} {ns : List ℕ}
    (hform : hasForm (.mark c :: parts) s = true)
    (hread : readParts (.mark c :: parts) s = some ns)
    (hspells : ∀ t, hasForm parts t = true → readParts parts t = some ns → Spells parts ns t) :
    Spells (.mark c :: parts) ns s := by
  cases s with
  | nil => cases hread
  | cons d t =>
    simp only [hasForm, Bool.and_eq_true, beq_iff_eq] at hform
    obtain ⟨rfl, hform⟩ := hform
    rw [readParts, if_pos (beq_self_eq_true d)] at hread
    exact .mark (hspells t hform hread)

/-- Nothing is read behind the parts. -/
theorem readParts_nil {s : List Char} {ns : List ℕ} (h : readParts [] s = some ns) :
    s = [] ∧ ns = [] := by
  rw [readParts] at h
  split at h
  · next hempty => exact ⟨List.isEmpty_iff.mp hempty, (Option.some.inj h).symm⟩
  · cases h

theorem spells_of_readParts {parts : List Part} (hparted : Parted parts) {s : List Char}
    {ns : List ℕ} (hform : hasForm parts s = true) (hread : readParts parts s = some ns) :
    Spells parts ns s := by
  have hend (t : List Char) (more : List ℕ) (h : readParts [] t = some more) :
      ∀ c ∈ t.head?, isDecimal c = false := by
    rw [(readParts_nil h).1]
    exact nofun
  have hnil (t : List Char) (more : List ℕ) (h : readParts [] t = some more) :
      Spells [] more t := by
    obtain ⟨rfl, rfl⟩ := readParts_nil h
    exact .nil
  induction hparted generalizing s ns with
  | nil => exact hnil s ns hread
  | number _ => exact spells_number hform hread hend fun more _ => hnil _ more
  | numberMark _ hmark _ ih =>
    refine spells_number hform hread (fun t more h => ?_) fun more hform' hread' =>
      spells_mark hform' hread' fun t => ih
    cases t with
    | nil => exact nofun
    | cons d t =>
      rw [readParts] at h
      split at h
      · next hd =>
        intro e he
        rw [← Option.some.inj he, beq_iff_eq.mp hd]
        exact hmark
      · cases h

theorem readParts_of_spells {parts : List Part} (hparted : Parted parts) {ns : List ℕ}
    {s : List Char} (h : Spells parts ns s) :
    hasForm parts s = true ∧ readParts parts s = some ns := by
  have hpos : ∀ width, .number width ∈ parts → 0 < width := fun _ => hparted.pos
  clear hparted
  induction h with
  | nil => exact ⟨rfl, rfl⟩
  | @number width n parts ns s hn h ih =>
    obtain ⟨hform, hread⟩ := ih fun w hw => hpos w (List.mem_cons_of_mem _ hw)
    have hwidth : 0 < width := hpos width List.mem_cons_self
    have hlength := length_digits width n
    have htake : (digits width n ++ s).take width = digits width n := List.take_left' hlength
    have hdrop : (digits width n ++ s).drop width = s := List.drop_left' hlength
    have hascii : ∀ c ∈ digits width n, c.isDigit = true := isDigit_of_mem_digits
    have hall : (digits width n).all isDecimal = true :=
      List.all_eq_true.mpr fun c hc => isDecimal_of_isDigit (hascii c hc)
    have hwhole : (digits width n).takeWhile Char.isDigit = digits width n :=
      List.takeWhile_eq_self_iff.mpr hascii
    have hsome : (digits width n).isEmpty = false := by
      rw [List.isEmpty_eq_false_iff, ← List.length_pos_iff, hlength]
      exact hwidth
    constructor
    · simp [hasForm, htake, hdrop, hlength, hall, hform]
    · simp [readParts, htake, hwhole, hsome, hlength, hdrop, hread, number?_digits hn]
  | mark h ih =>
    obtain ⟨hform, hread⟩ := ih fun w hw => hpos w (List.mem_cons_of_mem _ hw)
    simp [hasForm, readParts, hform, hread]

/-! What a text in a form is made of -/

def Part.span : Part → ℕ
  | .number width => width
  | .mark _ => 1

theorem length_of_hasForm {parts : List Part} {s : List Char} (h : hasForm parts s = true) :
    s.length = (parts.map Part.span).sum := by
  induction parts generalizing s with
  | nil => rw [List.isEmpty_iff.mp h]; rfl
  | cons part parts ih =>
    cases part with
    | number width =>
      simp only [hasForm, Bool.and_eq_true, beq_iff_eq] at h
      have hrest := ih h.2
      rw [List.map_cons, List.sum_cons, ← hrest, Part.span, ← h.1.1, ← List.length_append, h.1.1,
        List.take_append_drop]
    | mark c =>
      cases s with
      | nil => cases h
      | cons d s =>
        simp only [hasForm, Bool.and_eq_true] at h
        rw [List.map_cons, List.sum_cons, ← ih h.2, List.length_cons, Part.span, Nat.add_comm]

theorem mem_of_hasForm {parts : List Part} {s : List Char} (h : hasForm parts s = true) :
    ∀ c ∈ s, isDecimal c = true ∨ .mark c ∈ parts := by
  induction parts generalizing s with
  | nil => rw [List.isEmpty_iff.mp h]; exact nofun
  | cons part parts ih =>
    intro c hc
    cases part with
    | number width =>
      simp only [hasForm, Bool.and_eq_true] at h
      rw [← List.take_append_drop width s, List.mem_append] at hc
      rcases hc with hc | hc
      · exact .inl (List.all_eq_true.mp h.1.2 c hc)
      · exact (ih h.2 c hc).imp_right (List.mem_cons_of_mem _)
    | mark m =>
      cases s with
      | nil => cases h
      | cons d s =>
        simp only [hasForm, Bool.and_eq_true, beq_iff_eq] at h
        rcases List.mem_cons.mp hc with rfl | hc
        · exact .inr (h.1 ▸ List.mem_cons_self)
        · exact (ih h.2 c hc).imp_right (List.mem_cons_of_mem _)

/-- A text is read only with all its marks. -/
theorem mark_mem_of_readParts {parts : List Part} {s : List Char} {ns : List ℕ}
    (h : readParts parts s = some ns) {c : Char} (hmark : .mark c ∈ parts) : c ∈ s := by
  induction parts generalizing s ns with
  | nil => cases hmark
  | cons part parts ih =>
    cases part with
    | number width =>
      rw [readParts] at h
      split at h
      · cases h
      · obtain ⟨n, _, h⟩ := Option.bind_eq_some_iff.mp h
        obtain ⟨more, hmore, _⟩ := Option.map_eq_some_iff.mp h
        have hmark' : .mark c ∈ parts := by simpa using hmark
        exact List.mem_of_mem_drop (ih hmore hmark')
    | mark m =>
      cases s with
      | nil => cases h
      | cons d s =>
        rw [readParts] at h
        split at h
        · next hd =>
          rcases List.mem_cons.mp hmark with hsame | hmark
          · rw [beq_iff_eq.mp hd, Part.mark.inj hsame]
            exact List.mem_cons_self
          · exact List.mem_cons_of_mem _ (ih h hmark)
        · cases h

theorem ascii_of_spells {parts : List Part} {ns : List ℕ} {s : List Char}
    (h : Spells parts ns s) (hmarks : ∀ c, .mark c ∈ parts → c.toNat < 128) :
    ∀ c ∈ s, c.toNat < 128 := by
  induction h with
  | nil => exact nofun
  | number _ _ ih =>
    intro c hc
    rcases List.mem_append.mp hc with hc | hc
    · have hdigit := (isDigit_iff c).mp (isDigit_of_mem_digits c hc)
      omega
    · exact ih (fun m hm => hmarks m (List.mem_cons_of_mem _ hm)) c hc
  | mark _ ih =>
    intro c hc
    rcases List.mem_cons.mp hc with rfl | hc
    · exact hmarks c List.mem_cons_self
    · exact ih (fun m hm => hmarks m (List.mem_cons_of_mem _ hm)) c hc

/-! Dates -/

theorem spells_nil {ns : List ℕ} {s : List Char} : Spells [] ns s ↔ ns = [] ∧ s = [] := by
  constructor
  · rintro ⟨⟩
    exact ⟨rfl, rfl⟩
  · rintro ⟨rfl, rfl⟩
    exact .nil

theorem spells_number_cons {width : ℕ} {parts : List Part} {ns : List ℕ} {s : List Char} :
    Spells (.number width :: parts) ns s ↔
      ∃ n more t, n < 10 ^ width ∧ ns = n :: more ∧ s = digits width n ++ t ∧
        Spells parts more t := by
  constructor
  · rintro (_ | ⟨hn, h⟩)
    exact ⟨_, _, _, hn, rfl, rfl, h⟩
  · rintro ⟨n, more, t, hn, rfl, rfl, h⟩
    exact .number hn h

theorem spells_mark_cons {c : Char} {parts : List Part} {ns : List ℕ} {s : List Char} :
    Spells (.mark c :: parts) ns s ↔ ∃ t, s = c :: t ∧ Spells parts ns t := by
  constructor
  · rintro (_ | _ | h)
    exact ⟨_, rfl, h⟩
  · rintro ⟨t, rfl, h⟩
    exact .mark h

theorem spells_dayParts_append {rest : List Part} {ns : List ℕ} {s : List Char} :
    Spells (dayParts ++ rest) ns s ↔
      ∃ year month day more t, year < 10 ^ 4 ∧ month < 10 ^ 2 ∧ day < 10 ^ 2 ∧
        ns = [year, month, day] ++ more ∧
        s = digits 4 year ++ '-' :: digits 2 month ++ '-' :: digits 2 day ++ t ∧
        Spells rest more t := by
  simp only [dayParts, List.cons_append, List.nil_append, spells_number_cons, spells_mark_cons]
  constructor
  · rintro ⟨y, _, _, hy, rfl, rfl, _, rfl, m, _, _, hm, rfl, rfl, _, rfl, d, more, t, hd, rfl, rfl,
      h⟩
    exact ⟨y, m, d, more, t, hy, hm, hd, rfl, by simp, h⟩
  · rintro ⟨y, m, d, more, t, hy, hm, hd, rfl, rfl, h⟩
    exact ⟨y, _, _, hy, rfl, by simp, _, rfl, m, _, _, hm, rfl, rfl, _, rfl, d, more, t, hd, rfl,
      rfl, h⟩

theorem spells_timeParts {ns : List ℕ} {s : List Char} :
    Spells timeParts ns s ↔
      ∃ hour minute second, hour < 10 ^ 2 ∧ minute < 10 ^ 2 ∧ second < 10 ^ 2 ∧
        ns = [hour, minute, second] ∧
        s = 'T' :: digits 2 hour ++ ':' :: digits 2 minute ++ ':' :: digits 2 second ++ ['Z'] := by
  simp only [timeParts, spells_number_cons, spells_mark_cons, spells_nil]
  constructor
  · rintro ⟨_, rfl, h, _, _, hh, rfl, rfl, _, rfl, m, _, _, hm, rfl, rfl, _, rfl, n, _, _, hn, rfl,
      rfl, _, rfl, rfl, rfl⟩
    exact ⟨h, m, n, hh, hm, hn, rfl, by simp⟩
  · rintro ⟨h, m, n, hh, hm, hn, rfl, rfl⟩
    exact ⟨_, rfl, h, _, _, hh, rfl, by simp, _, rfl, m, _, _, hm, rfl, rfl, _, rfl, n, _, _, hn,
      rfl, rfl, _, rfl, rfl, rfl⟩

theorem isDay_iff_day {year month day : ℕ} (hyear : year < 10 ^ 4) :
    isDay year month day = true ↔ ∃ d : Day, d.year = year ∧ d.month = month ∧ d.day = day := by
  rw [isDay_iff]
  constructor
  · rintro ⟨hmonth, hday, hlength⟩
    exact ⟨⟨year, month, day, by omega, hmonth, hday, hlength⟩, rfl, rfl, rfl⟩
  · rintro ⟨d, rfl, rfl, rfl⟩
    exact ⟨d.month_pos, d.day_pos, d.day_le⟩

theorem isTime_iff_time {hour minute second : ℕ} : isTime hour minute second = true ↔
    ∃ t : Time, t.hour = hour ∧ t.minute = minute ∧ t.second = second := by
  simp only [isTime, Bool.and_eq_true, decide_eq_true_eq]
  constructor
  · rintro ⟨⟨hhour, hminute⟩, hsecond⟩
    exact ⟨⟨hour, minute, second, hhour, hminute, hsecond⟩, rfl, rfl, rfl⟩
  · rintro ⟨t, rfl, rfl, rfl⟩
    exact ⟨⟨t.hour_le, t.minute_le⟩, t.second_le⟩

theorem Day.month_lt (d : Day) : d.month < 10 ^ 2 := by
  obtain ⟨_, hlength, _⟩ := d.day_le
  obtain ⟨hlt, _⟩ := List.getElem?_eq_some_iff.mp hlength
  have hmonths : (monthLengths d.year).length = 12 := rfl
  omega

theorem Day.day_lt (d : Day) : d.day < 10 ^ 2 := by
  obtain ⟨length, hlength, hday⟩ := d.day_le
  have hmem := List.mem_of_getElem? hlength
  simp only [monthLengths, List.mem_cons, List.not_mem_nil, or_false] at hmem
  split at hmem <;> omega

theorem dated_day {s : List Char} :
    (∃ ns, Spells dayParts ns s ∧ exists? ns = true) ↔ ∃ d : Day, s = d.chars := by
  have happend (ns : List ℕ) : Spells dayParts ns s ↔ Spells (dayParts ++ []) ns s := by
    rw [List.append_nil]
  simp only [happend, spells_dayParts_append, spells_nil]
  constructor
  · rintro ⟨_, ⟨y, m, d, _, _, hy, _, _, rfl, rfl, rfl, rfl⟩, hexists⟩
    obtain ⟨d, rfl, rfl, rfl⟩ := (isDay_iff_day hy).mp hexists
    exact ⟨d, List.append_nil _⟩
  · rintro ⟨d, rfl⟩
    have hy : d.year < 10 ^ 4 := Nat.lt_succ_of_le d.year_le
    exact ⟨_, ⟨d.year, d.month, d.day, [], [], hy, d.month_lt, d.day_lt, rfl,
      (List.append_nil _).symm, rfl, rfl⟩, (isDay_iff_day hy).mpr ⟨d, rfl, rfl, rfl⟩⟩

theorem dated_moment {s : List Char} :
    (∃ ns, Spells momentParts ns s ∧ exists? ns = true) ↔
      ∃ (d : Day) (t : Time), s = d.chars ++ t.chars := by
  simp only [momentParts, spells_dayParts_append, spells_timeParts]
  constructor
  · rintro ⟨_, ⟨y, m, d, _, _, hy, _, _, rfl, rfl, h, n, k, _, _, _, rfl, rfl⟩, hexists⟩
    obtain ⟨hday, htime⟩ := Bool.and_eq_true_iff.mp hexists
    obtain ⟨d, rfl, rfl, rfl⟩ := (isDay_iff_day hy).mp hday
    obtain ⟨t, rfl, rfl, rfl⟩ := isTime_iff_time.mp htime
    exact ⟨d, t, rfl⟩
  · rintro ⟨d, t, rfl⟩
    have hy : d.year < 10 ^ 4 := Nat.lt_succ_of_le d.year_le
    have hhour := t.hour_le
    have hminute := t.minute_le
    have hsecond := t.second_le
    exact ⟨_, ⟨d.year, d.month, d.day, _, _, hy, d.month_lt, d.day_lt, rfl, rfl, t.hour, t.minute,
      t.second, by omega, by omega, by omega, rfl, rfl⟩, Bool.and_eq_true_iff.mpr
        ⟨(isDay_iff_day hy).mpr ⟨d, rfl, rfl, rfl⟩, isTime_iff_time.mpr ⟨t, rfl, rfl, rfl⟩⟩⟩

theorem isDate_iff (s : String) : IsDate s ↔
    (∃ d : Day, s.toList = d.chars) ∨ ∃ (d : Day) (t : Time), s.toList = d.chars ++ t.chars := by
  constructor
  · rintro (d | ⟨d, t⟩)
    · exact .inl ⟨d, String.toList_ofList⟩
    · exact .inr ⟨d, t, String.toList_ofList⟩
  · rintro (⟨d, h⟩ | ⟨d, t, h⟩)
    · rw [← String.ofList_toList (s := s), h]
      exact .day d
    · rw [← String.ofList_toList (s := s), h]
      exact .moment d t

/-- The forms of a date. -/
def IsForm (parts : List Part) : Prop := parts = dayParts ∨ parts = momentParts

theorem IsForm.parted {parts : List Part} (h : IsForm parts) : Parted parts := by
  rcases h with rfl | rfl
  · exact dayParts_parted
  · exact momentParts_parted

theorem IsForm.mark_ascii {parts : List Part} (h : IsForm parts) :
    ∀ c, .mark c ∈ parts → c.toNat < 128 := by
  rcases h with rfl | rfl <;> simp [dayParts, momentParts, timeParts, or_imp, forall_and]

/-- The length of a text in octets decides rightly how it is read: a day has ten of them if its
digits are ASCII, and is otherwise read as a moment, for which it lacks the time. -/
theorem spells_of_valid {s : String} (h : valid s = true) :
    ∃ parts ns, IsForm parts ∧ Spells parts ns s.toList ∧ exists? ns = true := by
  rw [valid, Bool.and_eq_true, Bool.or_eq_true, Option.any_eq_true] at h
  obtain ⟨hform, ns, hread, hexists⟩ := h
  by_cases hsize : s.utf8ByteSize = 10
  · rw [if_pos (beq_iff_eq.mpr hsize)] at hread
    rcases hform with hform | hform
    · exact ⟨dayParts, ns, .inl rfl, spells_of_readParts dayParts_parted hform hread, hexists⟩
    · have hlength : s.toList.length = 20 := length_of_hasForm hform
      have hle := Octets.length_le_utf8ByteSize s
      omega
  · rw [if_neg (by rwa [beq_iff_eq])] at hread
    rcases hform with hform | hform
    · have hmark : 'T' ∈ s.toList := mark_mem_of_readParts hread (by decide)
      rcases mem_of_hasForm hform _ hmark with hdigit | hpart
      · exact absurd hdigit (by decide)
      · exact absurd hpart (by decide)
    · exact ⟨momentParts, ns, .inr rfl, spells_of_readParts momentParts_parted hform hread, hexists⟩

theorem valid_of_spells {parts : List Part} (hparts : IsForm parts) {s : String} {ns : List ℕ}
    (h : Spells parts ns s.toList) (hexists : exists? ns = true) : valid s = true := by
  have hascii := Octets.utf8ByteSize_of_ascii (ascii_of_spells h hparts.mark_ascii)
  obtain ⟨hform, hread⟩ := readParts_of_spells hparts.parted h
  have hlength := length_of_hasForm hform
  rw [valid]
  rcases hparts with rfl | rfl
  · have hsize : s.utf8ByteSize = 10 := hascii.trans hlength
    simp [hform, hsize, hread, hexists]
  · have hsize : s.utf8ByteSize = 20 := hascii.trans hlength
    simp [hform, hsize, hread, hexists]

theorem valid_iff (s : String) : valid s = true ↔ IsDate s := by
  rw [isDate_iff, ← dated_day, ← dated_moment]
  constructor
  · intro h
    obtain ⟨parts, ns, rfl | rfl, hspells, hexists⟩ := spells_of_valid h
    · exact .inl ⟨ns, hspells, hexists⟩
    · exact .inr ⟨ns, hspells, hexists⟩
  · rintro (⟨ns, h, hexists⟩ | ⟨ns, h, hexists⟩)
    · exact valid_of_spells (.inl rfl) h hexists
    · exact valid_of_spells (.inr rfl) h hexists

theorem IsDate.ascii {s : String} (h : IsDate s) : ∀ c ∈ s.toList, c.toNat < 128 := by
  obtain ⟨parts, ns, hparts, hspells, _⟩ := spells_of_valid ((valid_iff s).mpr h)
  exact ascii_of_spells hspells hparts.mark_ascii

/-- Exactly the dates are valid, and any other text comes back in the error. A digit that is not
ASCII is enough for that, though the form of a date lets it pass. -/
theorem validate_exact (s : String) :
    (validate s = .ok () ↔ IsDate s) ∧ (validate s = .error (.invalidDate s) ↔ ¬ IsDate s) ∧
      ((∃ c ∈ s.toList, isDecimal c = true ∧ 128 ≤ c.toNat) →
        validate s = .error (.invalidDate s)) := by
  have hok : validate s = .ok () ↔ IsDate s := by
    rw [← valid_iff, validate]
    split <;> simp_all
  have herror : validate s = .error (.invalidDate s) ↔ ¬ IsDate s := by
    rw [← valid_iff, validate]
    split <;> simp_all
  refine ⟨hok, herror, ?_⟩
  rintro ⟨c, hc, _, hnot⟩
  exact herror.mpr fun hdate => absurd (hdate.ascii c hc) (Nat.not_lt.mpr hnot)

theorem eastern_digits_invalid :
    validate "٢٠٢٥-٠١-٠١" = .error (.invalidDate "٢٠٢٥-٠١-٠١") :=
  (validate_exact "٢٠٢٥-٠١-٠١").2.2 ⟨'٢', by decide, by decide, by decide⟩

example : hasForm dayParts "٢٠٢٥-٠١-٠١".toList = true := by decide

end Harvest.Calendar
