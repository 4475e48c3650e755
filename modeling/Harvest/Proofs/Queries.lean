import Harvest.Text.Form
import Harvest.Proofs.Octets

/-!
Queries in the form encoding. A query writes its arguments one after the other, each as a name and a
value, and whoever decodes it gets these names and values back in their order. So a query tells its
arguments, whatever characters are in them.
-/
namespace Harvest.Queries

open Text Octets

/-! One octet -/

theorem hexValue_hexDigit {n : ℕ} (hn : n < 16) : hexValue (hexDigit n) = some n := by
  interval_cases n <;> rfl

theorem hexDigit_plain {n : ℕ} (hn : n < 16) : hexDigit n ≠ '&' ∧ hexDigit n ≠ '=' := by
  interval_cases n <;> decide

/-- What stands for itself is ASCII and is none of the marks of a query. -/
theorem keeps_bounds {b : UInt8} (h : formKeeps b = true) :
    b.toNat < 128 ∧ b.toNat ≠ 37 ∧ b.toNat ≠ 38 ∧ b.toNat ≠ 43 ∧ b.toNat ≠ 61 := by
  simp only [formKeeps, Bool.or_eq_true, Bool.and_eq_true, decide_eq_true_eq, beq_iff_eq,
    UInt8.le_iff_toNat_le, ← UInt8.toNat_inj, UInt8.reduceToNat] at h
  omega

theorem toNat_ofNat_octet {b : UInt8} (h : b.toNat < 128) :
    (Char.ofNat b.toNat).toNat = b.toNat := by
  have hvalid : b.toNat.isValidChar := Or.inl (by omega)
  rw [Char.ofNat, dif_pos hvalid]
  rfl

theorem octet_ne {b : UInt8} (h : b.toNat < 128) {m : Char} (hm : b.toNat ≠ m.toNat) :
    Char.ofNat b.toNat ≠ m := by
  intro hsame
  rw [← hsame, toNat_ofNat_octet h] at hm
  exact hm rfl

theorem octets_ascii {b : UInt8} (h : b.toNat < 128) :
    octets (String.ofList [Char.ofNat b.toNat]) = [b] := by
  have hval : (Char.ofNat b.toNat).val.toNat = b.toNat := toNat_ofNat_octet h
  rw [octets_ofList, List.flatMap_singleton, String.utf8EncodeChar, hval]
  simp [show b.toNat ≤ 127 by omega]

theorem formDecode_char {c : Char} (hpercent : c ≠ '%') (hplus : c ≠ '+') (rest : List Char) :
    formDecode (c :: rest) = octets (String.ofList [c]) ++ formDecode rest := by
  rw [formDecode.eq_3 c rest (fun _ _ _ h _ => hpercent h)]
  simp [hplus, octets]

theorem formDecode_octet (b : UInt8) (rest : List Char) :
    formDecode (formOctet b ++ rest) = b :: formDecode rest := by
  unfold formOctet
  split
  · next hkeeps =>
    obtain ⟨hascii, hpercent, _, hplus, _⟩ := keeps_bounds hkeeps
    rw [List.singleton_append, formDecode_char (octet_ne hascii hpercent) (octet_ne hascii hplus),
      octets_ascii hascii, List.singleton_append]
  · split
    · next hblank =>
      rw [beq_iff_eq.mp hblank, List.singleton_append,
        formDecode.eq_3 '+' rest (fun _ _ _ h _ => absurd h (by decide))]
      rfl
    · have hlow : b.toNat / 16 < 16 := by have := b.toNat_lt; omega
      have hhigh : b.toNat % 16 < 16 := by omega
      have hvalue : 16 * (b.toNat / 16) + b.toNat % 16 = b.toNat := Nat.div_add_mod _ _
      simp only [List.cons_append, List.nil_append, formDecode.eq_2, hexValue_hexDigit hlow,
        hexValue_hexDigit hhigh, hvalue, UInt8.ofNat_toNat]

theorem formOctet_plain (b : UInt8) : ∀ c ∈ formOctet b, c ≠ '&' ∧ c ≠ '=' := by
  intro c hc
  unfold formOctet at hc
  split at hc
  · next hkeeps =>
    obtain ⟨hascii, _, hand, _, hequals⟩ := keeps_bounds hkeeps
    rw [List.mem_singleton.mp hc]
    exact ⟨octet_ne hascii hand, octet_ne hascii hequals⟩
  · split at hc
    · rw [List.mem_singleton.mp hc]
      decide
    · have hlow : b.toNat / 16 < 16 := by have := b.toNat_lt; omega
      have hhigh : b.toNat % 16 < 16 := by omega
      simp only [List.mem_cons, List.not_mem_nil, or_false] at hc
      rcases hc with rfl | rfl | rfl
      · decide
      · exact hexDigit_plain hlow
      · exact hexDigit_plain hhigh

/-! One value -/

theorem formDecode_chars (values : List UInt8) : formDecode (formChars values) = values := by
  induction values with
  | nil => rfl
  | cons b values ih => rw [formChars, List.flatMap_cons, formDecode_octet, ← formChars, ih]

theorem formDecode_encode (s : String) : formDecode (formEncode s).toList = octets s := by
  rw [formEncode, String.toList_ofList, formDecode_chars, octets]

theorem formEncode_plain (s : String) : ∀ c ∈ (formEncode s).toList, c ≠ '&' ∧ c ≠ '=' := by
  intro c hc
  rw [formEncode, String.toList_ofList] at hc
  obtain ⟨b, _, hb⟩ := List.mem_flatMap.mp hc
  exact formOctet_plain b c hb

/-! All arguments -/

/-- A name and its value as they stand in a query. -/
def written (argument : String × String) : List Char :=
  (formEncode argument.1).toList ++ '=' :: (formEncode argument.2).toList

def queryOf (arguments : List (String × String)) : List Char :=
  ['&'].intercalate (arguments.map written)

/-- The arguments that a query is decoded to. -/
def argumentsOf (query : List Char) : List (String × String) :=
  (formPairs query).map fun (name, value) => (textOf name, textOf value)

theorem written_plain (argument : String × String) : '&' ∉ written argument := by
  intro hmem
  rw [written, List.mem_append, List.mem_cons] at hmem
  rcases hmem with hname | hmark | hvalue
  · exact (formEncode_plain _ _ hname).1 rfl
  · exact absurd hmark (by decide)
  · exact (formEncode_plain _ _ hvalue).1 rfl

theorem written_parts (argument : String × String) :
    (written argument).takeWhile (· != '=') = (formEncode argument.1).toList ∧
    (written argument).dropWhile (· != '=') = '=' :: (formEncode argument.2).toList := by
  have hname : ∀ c ∈ (formEncode argument.1).toList, (c != '=') = true := fun c hc =>
    bne_iff_ne.mpr (formEncode_plain _ c hc).2
  rw [written, List.takeWhile_append_of_pos hname, List.dropWhile_append_of_pos hname]
  simp

theorem formPairs_queryOf (arguments : List (String × String)) :
    formPairs (queryOf arguments) = arguments.map fun a => (octets a.1, octets a.2) := by
  cases arguments with
  | nil => rfl
  | cons a arguments =>
    have hplain : ∀ w ∈ (a :: arguments).map written, '&' ∉ w := by
      intro w hw
      obtain ⟨argument, _, rfl⟩ := List.mem_map.mp hw
      exact written_plain argument
    rw [formPairs, queryOf, List.splitOn_intercalate '&' hplain (by simp), List.filterMap_map,
      ← List.filterMap_eq_map]
    refine List.filterMap_congr fun argument _ => ?_
    have hsome : written argument ≠ [] := by simp [written]
    obtain ⟨hname, hvalue⟩ := written_parts argument
    simp [hsome, hname, hvalue, formDecode_encode]

/-- A query is decoded to the arguments it was made of. -/
theorem argumentsOf_queryOf (arguments : List (String × String)) :
    argumentsOf (queryOf arguments) = arguments := by
  rw [argumentsOf, formPairs_queryOf, List.map_map]
  refine (List.map_congr_left fun argument _ => ?_).trans (List.map_id _)
  simp [textOf_octets]

/-! Queries argument by argument -/

/-- An argument behind others. -/
def behind (argument : String × String) : List Char := '&' :: written argument

theorem queryOf_cons (argument : String × String) (more : List (String × String)) :
    queryOf (argument :: more) = written argument ++ more.flatMap behind := by
  induction more generalizing argument with
  | nil => simp [queryOf, List.intercalate]
  | cons next more ih =>
    rw [List.flatMap_cons, behind, List.cons_append, ← ih next]
    simp [queryOf, List.intercalate]

theorem queryOf_append {arguments : List (String × String)} (hsome : arguments ≠ [])
    (more : List (String × String)) :
    queryOf (arguments ++ more) = queryOf arguments ++ more.flatMap behind := by
  obtain ⟨argument, rest, rfl⟩ := List.exists_cons_of_ne_nil hsome
  rw [List.cons_append, queryOf_cons, queryOf_cons, List.flatMap_append, List.append_assoc]

end Harvest.Queries
