import Anylinuxfs.Text

/-!
# Lemmas about UTF-8

The bytes of a text: those of the ASCII range stand for themselves, and the bytes of a text say where its characters end.
-/

namespace Anylinuxfs

theorem utf8_append (a b : List Char) : utf8 (a ++ b) = utf8 a ++ utf8 b := List.flatMap_append

theorem utf8_cons (c : Char) (s : List Char) : utf8 (c :: s) = String.utf8EncodeChar c ++ utf8 s := List.flatMap_cons

theorem utf8_flatten (l : List (List Char)) : utf8 l.flatten = (l.map utf8).flatten := by
  induction l with
  | nil => rfl
  | cons a l ih => rw [List.flatten_cons, utf8_append, ih, List.map_cons, List.flatten_cons]

theorem utf8_intercalate (sep : List Char) (l : List (List Char)) : utf8 (sep.intercalate l) = (utf8 sep).intercalate (l.map utf8) := by
  induction l with
  | nil => rfl
  | cons a l ih =>
    cases l with
    | nil => simp
    | cons b l =>
      rw [List.map_cons] at ih
      rw [List.map_cons, List.map_cons, List.intercalate_cons_cons, List.intercalate_cons_cons, utf8_append, utf8_append, ih]

/-! ## The ASCII range -/

theorem range_of_isAlphanum {c : Char} (h : c.isAlphanum = true) :
    (0x41 ≤ c.toNat ∧ c.toNat ≤ 0x5a ∨ 0x61 ≤ c.toNat ∧ c.toNat ≤ 0x7a) ∨ 0x30 ≤ c.toNat ∧ c.toNat ≤ 0x39 := by
  have halnum : ((decide (c.val ≥ 65 ∧ c.val ≤ 90) || c.val ≥ 97 && c.val ≤ 122) || c.val ≥ 48 && c.val ≤ 57) = true := h
  simp only [Bool.or_eq_true, Bool.and_eq_true, decide_eq_true_eq, UInt32.le_iff_toNat_le, ge_iff_le] at halnum
  exact halnum

/-- A character of the ASCII range is one byte. -/
theorem utf8EncodeChar_of_ascii {c : Char} (h : c.toNat < 0x80) : String.utf8EncodeChar c = [UInt8.ofNat c.toNat] := by
  rw [String.utf8EncodeChar, if_pos (show c.val.toNat ≤ 0x7f from Nat.le_of_lt_succ h)]
  rfl

/-- The other characters have no byte of that range. -/
theorem le_of_mem_utf8EncodeChar {c : Char} (h : ¬ c.toNat < 0x80) {b : UInt8} (hb : b ∈ String.utf8EncodeChar c) :
    0x80 ≤ b.toNat := by
  rw [String.utf8EncodeChar, if_neg (show ¬ c.val.toNat ≤ 0x7f from fun hle => h (Nat.lt_succ_of_le hle))] at hb
  split at hb
  · rcases List.mem_cons.1 hb with rfl | hb
    · simp only [UInt8.toNat_ofNat']
      omega
    · rw [List.mem_singleton.1 hb, UInt8.toNat_ofNat']
      omega
  · split at hb <;> simp only [List.mem_cons, List.not_mem_nil, or_false] at hb <;>
      rcases hb with rfl | rfl | rfl | rfl <;> simp only [UInt8.toNat_ofNat'] <;> omega

/-- A byte of the ASCII range is in the bytes of a text exactly if its character is in the text. -/
theorem mem_utf8_iff_of_ascii {a : Char} (ha : a.toNat < 0x80) {s : List Char} : UInt8.ofNat a.toNat ∈ utf8 s ↔ a ∈ s := by
  have htoNat : (UInt8.ofNat a.toNat).toNat = a.toNat := by
    rw [UInt8.toNat_ofNat']
    omega
  constructor
  · intro h
    obtain ⟨c, hc, hb⟩ := List.mem_flatMap.1 h
    by_cases hascii : c.toNat < 0x80
    · rw [utf8EncodeChar_of_ascii hascii, List.mem_singleton] at hb
      have heq : a.toNat = c.toNat := by
        rw [← htoNat, hb, UInt8.toNat_ofNat']
        omega
      rwa [Char.toNat_inj.1 heq]
    · have hle := le_of_mem_utf8EncodeChar hascii hb
      omega
  · intro h
    refine List.mem_flatMap.2 ⟨a, h, ?_⟩
    rw [utf8EncodeChar_of_ascii ha]
    exact List.mem_cons_self

/-! ## Where characters end -/

/-- Bytes that start with a character start with no other one. -/
theorem utf8EncodeChar_append_inj {c d : Char} {x y : Bytes} (h : String.utf8EncodeChar c ++ x = String.utf8EncodeChar d ++ y) :
    c = d ∧ x = y := by
  have hc := @ByteArray.utf8DecodeChar?_utf8EncodeChar_append x.toByteArray c
  have hd := @ByteArray.utf8DecodeChar?_utf8EncodeChar_append y.toByteArray d
  rw [← List.toByteArray_append, h, List.toByteArray_append, hd] at hc
  obtain rfl := Option.some.inj hc
  exact ⟨rfl, List.append_cancel_left h⟩

/-- A text whose bytes start with those of another text starts with that text. -/
theorem utf8_append_eq_utf8 {a b : List Char} {x : Bytes} (h : utf8 a ++ x = utf8 b) : ∃ c, b = a ++ c ∧ x = utf8 c := by
  induction a generalizing b with
  | nil => exact ⟨b, rfl, h⟩
  | cons c a ih =>
    rw [utf8_cons, List.append_assoc] at h
    cases b with
    | nil => exact absurd (List.append_eq_nil_iff.1 h).1 String.utf8EncodeChar_ne_nil
    | cons d b =>
      rw [utf8_cons] at h
      obtain ⟨rfl, hrest⟩ := utf8EncodeChar_append_inj h
      obtain ⟨e, rfl, rfl⟩ := ih hrest
      exact ⟨e, rfl, rfl⟩

theorem utf8_injective {a b : List Char} (h : utf8 a = utf8 b) : a = b := by
  obtain ⟨c, rfl, hc⟩ := utf8_append_eq_utf8 ((List.append_nil _).trans h)
  rw [utf8_eq_nil hc.symm, List.append_nil]

/-- A decoder of texts. -/
def decodeUtf8 (b : Bytes) : List Char := b.toByteArray.utf8Decode?.elim [] Array.toList

theorem decodeUtf8_utf8 (s : List Char) : decodeUtf8 (utf8 s) = s := by
  have h : (utf8 s).toByteArray = s.utf8Encode := rfl
  rw [decodeUtf8, h, List.utf8Decode?_utf8Encode]
  rfl

end Anylinuxfs
