import Harvest.Proofs.Blanks
import Harvest.Proofs.LetterCase
import Harvest.Proofs.Reading
import Harvest.Schema
import Harvest.Text.Digit

/-!
Spellings of the URL of a schema. A URL is known by what is left of it when blanks, letter case, the
scheme and `www.` are taken off, each of them once. So all its spellings lead to the same schema.
The kernels are told apart by their major versions, each of which is all that stands up to the next
slash or dot.
-/
namespace Harvest.Spelling

open Text Blanks LetterCase

/-- What may stand in front of a URL, or nothing. -/
def schemes : List String := ["", "http://", "https://"]

def hostMarks : List String := ["", "www."]

/-- The text begins neither with a scheme nor with `www.`. -/
def Bare (s : List Char) : Prop :=
  ∀ mark ∈ ["http://", "https://", "www."], ¬ mark.toList <+: s

/-- A URL from which nothing is taken off at its start: it does not begin with a blank, and in lower
case it is bare. -/
structure Plain (x : String) : Prop where
  start : ∀ c ∈ x.toList.head?, isBlank c = false
  bare : Bare (lower x.toList)

/-- A plain URL as it may be written: with or without a scheme and `www.` in front, in any case of
ASCII letters, and between any blanks. -/
inductive Spelled (x : String) : String → Prop
  | intro {before after written scheme host : String} (hbefore : blank before = true)
      (hafter : blank after = true) (hscheme : scheme ∈ schemes) (hhost : host ∈ hostMarks)
      (hwritten : sameAscii written (scheme ++ host ++ x) = true) :
      Spelled x (before ++ written ++ after)

def kernelFront : String := "schema.datacite.org/meta/kernel-"

/-- The URL of a DataCite kernel of some version, with what comes behind the version. -/
def kernelUrl (version rest : String) : String := kernelFront ++ version ++ rest

/-! Prefixes that are taken off -/

def withoutScheme (s : List Char) : List Char :=
  ((after? "https://".toList s).or (after? "http://".toList s)).getD s

def withoutHost (s : List Char) : List Char := (after? "www.".toList s).getD s

theorem plainUrl_eq (s : List Char) :
    Schema.plainUrl s = withoutHost (withoutScheme (lower (trimChars s))) := rfl

theorem Bare.of_prefix {s t : List Char} (ht : Bare t) (h : s <+: t) : Bare s :=
  fun mark hmark hs => ht mark hmark (hs.trans h)

theorem withoutScheme_of_not_prefix {s : List Char} (hhttp : ¬ "http://".toList <+: s)
    (hhttps : ¬ "https://".toList <+: s) : withoutScheme s = s := by
  rw [withoutScheme, Reading.after?_eq_none hhttp, Reading.after?_eq_none hhttps]
  rfl

theorem withoutScheme_http (s : List Char) : withoutScheme ("http://".toList ++ s) = s := by
  have hhttps : ¬ "https://".toList <+: "http://".toList ++ s := by simp
  rw [withoutScheme, Reading.after?_eq_none hhttps, Reading.after?_prefix]
  rfl

theorem withoutScheme_https (s : List Char) : withoutScheme ("https://".toList ++ s) = s := by
  rw [withoutScheme, Reading.after?_prefix]
  rfl

theorem withoutHost_append {s : List Char} (hs : Bare s) {host : String}
    (hhost : host ∈ hostMarks) : withoutHost (host.toList ++ s) = s := by
  simp only [hostMarks, List.mem_cons, List.not_mem_nil, or_false] at hhost
  rcases hhost with rfl | rfl
  · have hwww : ¬ "www.".toList <+: s := hs "www." (by decide)
    change withoutHost s = s
    rw [withoutHost, Reading.after?_eq_none hwww]
    rfl
  · rw [withoutHost, Reading.after?_prefix]
    rfl

/-- Neither a bare text nor one behind `www.` begins with a scheme. -/
theorem withoutScheme_host {s : List Char} (hs : Bare s) {host : String}
    (hhost : host ∈ hostMarks) : withoutScheme (host.toList ++ s) = host.toList ++ s := by
  simp only [hostMarks, List.mem_cons, List.not_mem_nil, or_false] at hhost
  rcases hhost with rfl | rfl
  · exact withoutScheme_of_not_prefix (hs "http://" (by decide)) (hs "https://" (by decide))
  · exact withoutScheme_of_not_prefix (by simp) (by simp)

theorem withoutScheme_append {s : List Char} (hs : Bare s) {scheme host : String}
    (hscheme : scheme ∈ schemes) (hhost : host ∈ hostMarks) :
    withoutScheme (scheme.toList ++ (host.toList ++ s)) = host.toList ++ s := by
  simp only [schemes, List.mem_cons, List.not_mem_nil, or_false] at hscheme
  rcases hscheme with rfl | rfl | rfl
  · exact withoutScheme_host hs hhost
  · exact withoutScheme_http _
  · exact withoutScheme_https _

/-! Spellings -/

/-- The marks in front of a URL have no blanks and no capital letters. -/
theorem front_solid {scheme host : String} (hscheme : scheme ∈ schemes)
    (hhost : host ∈ hostMarks) :
    (∀ c ∈ (scheme ++ host).toList, isBlank c = false) ∧
      lower (scheme ++ host).toList = (scheme ++ host).toList := by
  have hall : ∀ scheme ∈ schemes, ∀ host ∈ hostMarks,
      ((scheme ++ host).toList.all fun c => !isBlank c) = true ∧
        lower (scheme ++ host).toList = (scheme ++ host).toList := by decide
  obtain ⟨hsolid, hlower⟩ := hall scheme hscheme host hhost
  exact ⟨solid_of_all hsolid, hlower⟩

/-- Trimmed and in lower case, a plain URL is as bare as before. -/
theorem Plain.bare_trimmed {x : String} (hx : Plain x) : Bare (lower (trimChars x.toList)) := by
  obtain ⟨rest, _, hrest⟩ := trimEnd_append_rest x.toList
  have hprefix : lower (trimEnd x.toList) <+: lower x.toList :=
    ⟨lower rest, by rw [← lower_append, hrest]⟩
  rw [trimChars, trimStart_of_head hx.start]
  exact Bare.of_prefix hx.bare hprefix

/-- Scheme and `www.` are taken off a plain URL, and nothing else is. -/
theorem plainUrl_fronted {x scheme host : String} (hx : Plain x) (hscheme : scheme ∈ schemes)
    (hhost : host ∈ hostMarks) :
    Schema.plainUrl (scheme ++ host ++ x).toList = lower (trimChars x.toList) := by
  obtain ⟨hsolid, hlower⟩ := front_solid hscheme hhost
  have hstart : ∀ c ∈ ((scheme ++ host).toList ++ x.toList).head?, isBlank c = false := by
    intro c hc
    rw [List.head?_append, Option.mem_def, Option.or_eq_some_iff] at hc
    rcases hc with hc | ⟨_, hc⟩
    · exact hsolid c (List.mem_of_mem_head? hc)
    · exact hx.start c hc
  have htrim : trimChars ((scheme ++ host).toList ++ x.toList) =
      (scheme ++ host).toList ++ trimChars x.toList := by
    rw [trimChars, trimStart_of_head hstart, trimEnd_solid_append hsolid, trimChars,
      trimStart_of_head hx.start]
  rw [plainUrl_eq, String.toList_append, htrim, lower_append, hlower, String.toList_append,
    List.append_assoc, withoutScheme_append hx.bare_trimmed hscheme hhost,
    withoutHost_append hx.bare_trimmed hhost]

theorem plainUrl_of_plain {x : String} (hx : Plain x) :
    Schema.plainUrl x.toList = lower (trimChars x.toList) := by
  have hbare : Schema.plainUrl ("" ++ "" ++ x).toList = lower (trimChars x.toList) :=
    plainUrl_fronted hx (by decide) (by decide)
  simpa using hbare

/-- What is written around a plain URL, and in which case, does not matter. -/
theorem plainUrl_spelled {x t : String} (hx : Plain x) (h : Spelled x t) :
    Schema.plainUrl t.toList = Schema.plainUrl x.toList := by
  cases h with
  | @intro before after written scheme host hbefore hafter hscheme hhost hwritten =>
    calc
      Schema.plainUrl (before ++ written ++ after).toList = Schema.plainUrl written.toList := by
        rw [plainUrl_eq, plainUrl_eq, String.toList_append, String.toList_append,
          trimChars_surrounded hbefore hafter]
      _ = Schema.plainUrl (scheme ++ host ++ x).toList := by
        rw [plainUrl_eq, plainUrl_eq, lower_trimChars_of_sameAscii hwritten]
      _ = Schema.plainUrl x.toList := by
        rw [plainUrl_fronted hx hscheme hhost, plainUrl_of_plain hx]

/-! Versions of a kernel -/

/-- A digit of any script is one of ten that follow each other. -/
theorem exists_run {c : Char} (h : isDecimal c = true) :
    ∃ first ∈ decimalZeros, ∃ n < 10, c = Char.ofNat (first + n) := by
  rw [isDecimal, List.any_eq_true] at h
  obtain ⟨first, hfirst, hc⟩ := h
  simp only [Bool.and_eq_true, decide_eq_true_eq] at hc
  refine ⟨first, hfirst, c.toNat - first, by omega, ?_⟩
  rw [Nat.add_sub_cancel' hc.1, Char.ofNat_toNat]

/-- No digit is a blank, a capital letter or a mark that ends a version. -/
theorem digit_kept {c : Char} (h : isDecimal c = true) :
    isBlank c = false ∧ lowerChar c = [c] ∧ c ≠ '/' ∧ c ≠ '.' := by
  have hall : ∀ first ∈ decimalZeros, ∀ n < 10,
      isBlank (Char.ofNat (first + n)) = false ∧
        lowerChar (Char.ofNat (first + n)) = [Char.ofNat (first + n)] ∧
        Char.ofNat (first + n) ≠ '/' ∧ Char.ofNat (first + n) ≠ '.' := by decide +kernel
  obtain ⟨first, hfirst, n, hn, rfl⟩ := exists_run h
  exact hall first hfirst n hn

theorem lower_digits {v : List Char} (hv : ∀ c ∈ v, isDecimal c = true) : lower v = v := by
  induction v with
  | nil => rfl
  | cons c v ih =>
    obtain ⟨_, hc, _⟩ := digit_kept (hv c List.mem_cons_self)
    rw [lower, List.flatMap_cons, hc, ← lower, ih fun d hd => hv d (List.mem_cons_of_mem c hd)]
    rfl

def kernelOf (version : List Char) : Option Schema :=
  if version = ['2'] then some .dataCite2
  else if version = ['3'] then some .dataCite3
  else if version = ['4'] then some .dataCite4
  else none

/-- The version ends at the first slash or dot. -/
theorem ofPlainUrl_kernel {v rest : List Char} (hv : ∀ c ∈ v, c ≠ '/' ∧ c ≠ '.')
    (hrest : ∀ c ∈ rest.head?, c = '/' ∨ c = '.') :
    Schema.ofPlainUrl (Schema.kernelPath ++ (v ++ rest)) = kernelOf v := by
  have hversion : (v ++ rest).takeWhile (fun c => c != '/' && c != '.') = v := by
    rw [List.takeWhile_append_of_pos (by simpa using hv)]
    cases rest with
    | nil => simp
    | cons c rest =>
      have hc : (c != '/' && c != '.') = false := by
        rcases hrest c rfl with rfl | rfl
        · rfl
        · rfl
      rw [List.takeWhile_cons_of_neg (by simp [hc]), List.append_nil]
  rw [Schema.ofPlainUrl, Reading.after?_prefix]
  dsimp only
  rw [hversion, kernelOf]
  split
  · rfl
  · rfl
  · rfl
  · next h2 h3 h4 => rw [if_neg h2, if_neg h3, if_neg h4]

theorem path_kept :
    (∀ c ∈ Schema.kernelPath, isBlank c = false) ∧ lower Schema.kernelPath = Schema.kernelPath :=
  ⟨solid_of_all (by decide +kernel), by decide +kernel⟩

theorem kernelUrl_chars (v t : String) :
    (kernelUrl v t).toList = Schema.kernelPath ++ v.toList ++ t.toList := by
  have hfront : kernelFront.toList = Schema.kernelPath := rfl
  rw [kernelUrl, String.toList_append, String.toList_append, hfront]

theorem plain_kernelUrl (v t : String) : Plain (kernelUrl v t) := by
  obtain ⟨path, hpath⟩ : ∃ path, Schema.kernelPath = 's' :: path := ⟨_, rfl⟩
  have hlower : lower (kernelUrl v t).toList = 's' :: (path ++ lower (v.toList ++ t.toList)) := by
    rw [kernelUrl_chars, List.append_assoc, lower_append, path_kept.2, hpath, List.cons_append]
  refine ⟨fun c hc => ?_, fun mark hmark => ?_⟩
  · rw [kernelUrl_chars, hpath, List.cons_append, List.cons_append, List.head?_cons,
      Option.mem_some_iff] at hc
    rw [← hc]
    rfl
  · rw [hlower]
    simp only [List.mem_cons, List.not_mem_nil, or_false] at hmark
    rcases hmark with rfl | rfl | rfl
    · simp
    · simp
    · simp

theorem head_lower_trimEnd {t : List Char} (ht : ∀ c ∈ t.head?, c = '/' ∨ c = '.') :
    ∀ c ∈ (lower (trimEnd t)).head?, c = '/' ∨ c = '.' := by
  cases t with
  | nil => simp [trimEnd, lower]
  | cons d rest =>
    have hd : d = '/' ∨ d = '.' := ht d rfl
    have hsolid : ∀ c ∈ [d], isBlank c = false := by
      rcases hd with rfl | rfl
      · exact solid_of_all (by decide)
      · exact solid_of_all (by decide)
    have htrim : trimEnd (d :: rest) = [d] ++ trimEnd rest := trimEnd_solid_append hsolid rest
    have hlower : lower [d] = [d] := by
      rcases hd with rfl | rfl
      · rfl
      · rfl
    rw [htrim, lower_append, hlower]
    simpa using hd

/-- What comes behind the version does not matter. -/
theorem ofUrl?_kernelUrl {v t : String} (hv : ∀ c ∈ v.toList, isDecimal c = true)
    (ht : ∀ c ∈ t.toList.head?, c = '/' ∨ c = '.') :
    Schema.ofUrl? (kernelUrl v t) = kernelOf v.toList := by
  have hsolid : ∀ c ∈ Schema.kernelPath ++ v.toList, isBlank c = false := by
    intro c hc
    rcases List.mem_append.mp hc with hc | hc
    · exact path_kept.1 c hc
    · exact (digit_kept (hv c hc)).1
  have htrim : trimChars (kernelUrl v t).toList =
      Schema.kernelPath ++ v.toList ++ trimEnd t.toList := by
    rw [trimChars, trimStart_of_head (plain_kernelUrl v t).start, kernelUrl_chars,
      trimEnd_solid_append hsolid]
  have hurl : Schema.plainUrl (kernelUrl v t).toList =
      Schema.kernelPath ++ (v.toList ++ lower (trimEnd t.toList)) := by
    rw [plainUrl_of_plain (plain_kernelUrl v t), htrim, lower_append, lower_append, path_kept.2,
      lower_digits hv, List.append_assoc]
  rw [Schema.ofUrl?, hurl]
  exact ofPlainUrl_kernel (fun c hc => (digit_kept (hv c hc)).2.2) (head_lower_trimEnd ht)

/-- The kernels that can be mapped from are those of the major versions 2, 3 and 4. -/
theorem kernelOf_iff (v : String) :
    (kernelOf v.toList = some .dataCite2 ↔ v = "2") ∧
      (kernelOf v.toList = some .dataCite3 ↔ v = "3") ∧
      (kernelOf v.toList = some .dataCite4 ↔ v = "4") ∧
      (kernelOf v.toList = none ↔ v ≠ "2" ∧ v ≠ "3" ∧ v ≠ "4") := by
  have hchars (digit : String) : v.toList = digit.toList ↔ v = digit := String.toList_inj
  have hkernel : kernelOf v.toList =
      if v = "2" then some .dataCite2 else if v = "3" then some .dataCite3
      else if v = "4" then some .dataCite4 else none := by
    simp only [kernelOf, ← hchars]
    rfl
  rw [hkernel]
  by_cases h2 : v = "2"
  · simp [h2]
  · by_cases h3 : v = "3"
    · simp [h3]
    · by_cases h4 : v = "4"
      · simp [h4]
      · simp [h2, h3, h4]

/-- All spellings of a plain URL lead to the same schema. The URL of a kernel is plain. It leads to
the schema of its version if that is 2, 3 or 4, whatever comes behind the version, and to none if it
is anything else made of digits of whatever script. -/
theorem spellings_recognized :
    (∀ x t, Plain x → Spelled x t → Schema.ofUrl? t = Schema.ofUrl? x) ∧
      ∀ v t : String, (∀ c ∈ v.toList, isDecimal c = true) →
        (∀ c ∈ t.toList.head?, c = '/' ∨ c = '.') →
        Plain (kernelUrl v t) ∧
          (Schema.ofUrl? (kernelUrl v t) = some .dataCite2 ↔ v = "2") ∧
          (Schema.ofUrl? (kernelUrl v t) = some .dataCite3 ↔ v = "3") ∧
          (Schema.ofUrl? (kernelUrl v t) = some .dataCite4 ↔ v = "4") ∧
          (Schema.ofUrl? (kernelUrl v t) = none ↔ v ≠ "2" ∧ v ≠ "3" ∧ v ≠ "4") := by
  refine ⟨fun x t hx ht => ?_, fun v t hv ht => ⟨plain_kernelUrl v t, ?_⟩⟩
  · rw [Schema.ofUrl?, Schema.ofUrl?, plainUrl_spelled hx ht]
  · rw [ofUrl?_kernelUrl hv ht]
    exact kernelOf_iff v

/-- A kernel is recognized in capital letters and between blanks, and 40 is not 4. -/
theorem shouted_kernel_recognized :
    Schema.ofUrl? " HTTPS://www.Schema.DataCite.org/META/kernel-4.1\n" = some .dataCite4 ∧
      Schema.ofUrl? "schema.datacite.org/meta/kernel-40.1" = none := by
  obtain ⟨hspelled, hkernel⟩ := spellings_recognized
  have hrest : ∀ c ∈ ".1".toList.head?, c = '/' ∨ c = '.' := by
    intro c hc
    cases hc
    exact .inr rfl
  have hdigits (v : String) (h : v.toList.all isDecimal = true) :
      ∀ c ∈ v.toList, isDecimal c = true := List.all_eq_true.mp h
  obtain ⟨hplain, _, _, hfour, _⟩ := hkernel "4" ".1" (hdigits "4" (by decide)) hrest
  obtain ⟨_, _, _, _, hforty⟩ := hkernel "40" ".1" (hdigits "40" (by decide)) hrest
  have hwritten : Spelled (kernelUrl "4" ".1")
      (" " ++ "HTTPS://www.Schema.DataCite.org/META/kernel-4.1" ++ "\n") :=
    .intro (by decide) (by decide) (by decide : "https://" ∈ schemes)
      (by decide : "www." ∈ hostMarks) (by decide +kernel)
  exact ⟨(hspelled _ _ hplain hwritten).trans (hfour.mpr rfl), hforty.mpr (by decide)⟩

end Harvest.Spelling
