import Harvest.Text.Octet
import Mathlib.Algebra.BigOperators.Group.List.Basic
import Mathlib.Data.List.Basic
import Mathlib.Tactic.IntervalCases

/-!
Texts and their own octets. Each character is written in up to four octets, and the reading of
octets gives it back, whatever stands behind it. So nothing of a text is replaced when its octets
are read. A text has no fewer octets than characters, and as many if all of them are ASCII.
-/
namespace Harvest.Octets

open Text

/-- The octets that a text is written in. -/
def octets (s : String) : List UInt8 := s.toByteArray.data.toList

/-- The text of octets. -/
def textOf (octets : List UInt8) : String := ofOctets (octets.map UInt8.toNat)

theorem octets_ofList (s : List Char) :
    octets (String.ofList s) = s.flatMap String.utf8EncodeChar := by
  rw [octets, String.toByteArray_ofList, List.utf8Encode, List.data_toByteArray,
    List.toList_toArray]

theorem octets_eq (s : String) : octets s = s.toList.flatMap String.utf8EncodeChar := by
  rw [← octets_ofList, String.ofList_toList]

/-! How many octets a text has -/

theorem utf8ByteSize_eq (s : String) : s.utf8ByteSize = (s.toList.map Char.utf8Size).sum := by
  have hoctets : s.utf8ByteSize = (octets s).length := s.size_toByteArray.symm
  rw [hoctets, octets_eq, List.length_flatMap]
  simp only [String.length_utf8EncodeChar]

theorem length_le_utf8ByteSize (s : String) : s.toList.length ≤ s.utf8ByteSize := by
  rw [utf8ByteSize_eq]
  have hsizes : ∀ i ∈ s.toList.map Char.utf8Size, 1 ≤ i := by
    intro i hi
    obtain ⟨c, _, rfl⟩ := List.mem_map.mp hi
    exact c.utf8Size_pos
  exact (List.length_map _).symm.trans_le (List.length_le_sum_of_one_le _ hsizes)

theorem utf8ByteSize_of_ascii {s : String} (h : ∀ c ∈ s.toList, c.toNat < 128) :
    s.utf8ByteSize = s.toList.length := by
  have hone : s.toList.map Char.utf8Size = List.replicate s.toList.length 1 :=
    List.map_eq_replicate_iff.mpr fun c hc =>
      Char.utf8Size_eq_one_iff.mpr (Nat.le_of_lt_succ (h c hc))
  rw [utf8ByteSize_eq, hone, List.sum_replicate_nat, Nat.mul_one]

/-! One octet of a character -/

theorem read_single {b : ℕ} (hb : b < 0x80) (rest : List ℕ) :
    ofOctetsFrom none (b :: rest) = Char.ofNat b :: ofOctetsFrom none rest := by
  simp [ofOctetsFrom, stepOctet, startOctet, hb]

theorem read_lead {b size low high : ℕ} (hlead : octetLead b = some (size, low, high))
    (hb : 0x80 ≤ b) (rest : List ℕ) :
    ofOctetsFrom none (b :: rest) =
      ofOctetsFrom
        (some { owed := size - 1, low, high, value := b % Nat.pow 2 (7 - size) }) rest := by
  simp [ofOctetsFrom, stepOctet, startOctet, hlead, Nat.not_lt.mpr hb]

theorem read_next {r : Reading} {b : ℕ} (howed : 1 < r.owed) (hlow : r.low ≤ b)
    (hhigh : b ≤ r.high) (rest : List ℕ) :
    ofOctetsFrom (some r) (b :: rest) =
      ofOctetsFrom
        (some { owed := r.owed - 1, low := 0x80, high := 0xBF, value := r.value * 64 + b % 64 })
        rest := by
  simp [ofOctetsFrom, stepOctet, hlow, hhigh, Nat.not_le.mpr howed]

theorem read_last {r : Reading} {b : ℕ} (howed : r.owed = 1) (hlow : r.low ≤ b)
    (hhigh : b ≤ r.high) (rest : List ℕ) :
    ofOctetsFrom (some r) (b :: rest) =
      Char.ofNat (r.value * 64 + b % 64) :: ofOctetsFrom none rest := by
  simp [ofOctetsFrom, stepOctet, hlow, hhigh, howed]

/-! What may follow the first octet -/

theorem octetLead_two {b : ℕ} (hlow : 0xC2 ≤ b) (hhigh : b ≤ 0xDF) :
    octetLead b = some (2, 0x80, 0xBF) := by
  simp [octetLead, hlow, hhigh]

theorem octetLead_three {b : ℕ} (hlow : 0xE0 ≤ b) (hhigh : b ≤ 0xEF) :
    octetLead b =
      some (3, if b = 0xE0 then 0xA0 else 0x80, if b = 0xED then 0x9F else 0xBF) := by
  interval_cases b <;> rfl

theorem octetLead_four {b : ℕ} (hlow : 0xF0 ≤ b) (hhigh : b ≤ 0xF4) :
    octetLead b =
      some (4, if b = 0xF0 then 0x90 else 0x80, if b = 0xF4 then 0x8F else 0xBF) := by
  interval_cases b <;> rfl

/-! A whole character, by the number of its octets -/

theorem read_two {n : ℕ} (hlow : 0x7F < n) (hhigh : n ≤ 0x7FF) (rest : List ℕ) :
    ofOctetsFrom none ((n / 64 % 32 + 192) :: (n % 64 + 128) :: rest) =
      Char.ofNat n :: ofOctetsFrom none rest := by
  rw [read_lead (octetLead_two (by omega) (by omega)) (by omega),
    read_last rfl (Nat.le_add_left 128 _) (by dsimp only; omega)]
  congr 2
  change (n / 64 % 32 + 192) % 32 * 64 + (n % 64 + 128) % 64 = n
  omega

theorem read_three {n : ℕ} (hlow : 0x7FF < n) (hhigh : n ≤ 0xFFFF)
    (hvalid : n < 0xD800 ∨ 0xDFFF < n) (rest : List ℕ) :
    ofOctetsFrom none
        ((n / 4096 % 16 + 224) :: (n / 64 % 64 + 128) :: (n % 64 + 128) :: rest) =
      Char.ofNat n :: ofOctetsFrom none rest := by
  rw [read_lead (octetLead_three (by omega) (by omega)) (by omega),
    read_next (Nat.lt_succ_self 1) (by dsimp only; split <;> omega)
      (by dsimp only; split <;> omega),
    read_last rfl (Nat.le_add_left 128 _) (by dsimp only; omega)]
  congr 2
  change ((n / 4096 % 16 + 224) % 16 * 64 + (n / 64 % 64 + 128) % 64) * 64 +
    (n % 64 + 128) % 64 = n
  omega

theorem read_four {n : ℕ} (hlow : 0xFFFF < n) (hhigh : n < 0x110000) (rest : List ℕ) :
    ofOctetsFrom none ((n / 262144 % 8 + 240) :: (n / 4096 % 64 + 128) :: (n / 64 % 64 + 128) ::
        (n % 64 + 128) :: rest) =
      Char.ofNat n :: ofOctetsFrom none rest := by
  rw [read_lead (octetLead_four (by omega) (by omega)) (by omega),
    read_next (by dsimp only; omega) (by dsimp only; split <;> omega)
      (by dsimp only; split <;> omega),
    read_next (by dsimp only; omega) (Nat.le_add_left 128 _) (by dsimp only; omega),
    read_last rfl (Nat.le_add_left 128 _) (by dsimp only; omega)]
  congr 2
  change (((n / 262144 % 8 + 240) % 8 * 64 + (n / 4096 % 64 + 128) % 64) * 64 +
    (n / 64 % 64 + 128) % 64) * 64 + (n % 64 + 128) % 64 = n
  omega

theorem read_char (c : Char) (rest : List ℕ) :
    ofOctetsFrom none ((String.utf8EncodeChar c).map UInt8.toNat ++ rest) =
      c :: ofOctetsFrom none rest := by
  have hc : Char.ofNat c.val.toNat = c := Char.ofNat_toNat c
  have hvalid : c.val.toNat < 0xD800 ∨ 0xDFFF < c.val.toNat ∧ c.val.toNat < 0x110000 := c.valid
  have hoctet {m : ℕ} (hm : m < 256) : (UInt8.ofNat m).toNat = m := UInt8.toNat_ofNat_of_lt' hm
  unfold String.utf8EncodeChar
  generalize c.val.toNat = n at hc hvalid ⊢
  rw [← hc]
  dsimp only
  split
  · next hone =>
    simp only [List.map_cons, List.map_nil, hoctet (show n < 256 by omega), List.cons_append,
      List.nil_append]
    exact read_single (by omega) rest
  · split
    · next hone htwo =>
      rw [List.map_cons, List.map_cons, List.map_nil, hoctet (by omega), hoctet (by omega)]
      exact read_two (by omega) htwo rest
    · split
      · next htwo hthree =>
        rw [List.map_cons, List.map_cons, List.map_cons, List.map_nil, hoctet (by omega),
          hoctet (by omega), hoctet (by omega)]
        exact read_three (by omega) hthree (by omega) rest
      · next hthree =>
        rw [List.map_cons, List.map_cons, List.map_cons, List.map_cons, List.map_nil,
          hoctet (by omega), hoctet (by omega), hoctet (by omega), hoctet (by omega)]
        exact read_four (by omega) (by omega) rest

theorem read_chars (s : List Char) :
    ofOctetsFrom none ((s.flatMap String.utf8EncodeChar).map UInt8.toNat) = s := by
  induction s with
  | nil => rfl
  | cons c s ih => rw [List.flatMap_cons, List.map_append, read_char, ih]

/-- A text is read from its own octets. -/
theorem textOf_octets (s : String) : textOf (octets s) = s := by
  rw [textOf, ofOctets, octets_eq, read_chars, String.ofList_toList]

end Harvest.Octets
