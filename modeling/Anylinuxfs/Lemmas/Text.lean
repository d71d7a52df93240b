import Anylinuxfs.Text
import Mathlib.Data.List.TakeWhile

/-!
# Lemmas about texts

Numbers that are written in digits, where a character is first or last in a text, and what trimming leaves.
-/

namespace Anylinuxfs

variable {n : Nat} {a s : List Char} {c : Char}

/-! ## Digits -/

theorem isDigit_toDigits : (Nat.toDigits 10 n).all Char.isDigit = true :=
  List.all_eq_true.2 fun _ hc => Nat.isDigit_of_mem_toDigits (by decide) (by decide) hc

theorem notMem_toDigits_of_not_isDigit (hc : c.isDigit = false) : c ∉ Nat.toDigits 10 n := by
  intro hmem
  rw [List.all_eq_true.1 isDigit_toDigits c hmem] at hc
  cases hc

theorem parseUsize_toDigits (hn : n < 2 ^ 64) : parseUsize (Nat.toDigits 10 n) = some n := by
  have hvalue : (Nat.toDigits 10 n).foldl (fun n c => 10 * n + (c.toNat - '0'.toNat)) 0 = n := Nat.ofDigitChars_ten_toDigits
  simp only [parseUsize, hvalue, hn, if_true]

/-! ## The first occurrence -/

theorem takeWhile_append_cons {α : Type} [DecidableEq α] {c : α} {a b : List α} (ha : c ∉ a) :
    (a ++ c :: b).takeWhile (· ≠ c) = a := by
  have hne : ∀ d ∈ a, decide (d ≠ c) = true := fun d hd => decide_eq_true fun heq => ha (heq ▸ hd)
  rw [List.takeWhile_append_of_pos hne, List.takeWhile_cons_of_neg (by simp), List.append_nil]

/-- A text is cut at the first occurrence of a character in one way. -/
theorem append_cons_inj {a a' s s' : List Char} (h : c ∉ a) (h' : c ∉ a') (heq : a ++ c :: s = a' ++ c :: s') : a = a' ∧ s = s' := by
  obtain rfl : a = a' := by rw [← takeWhile_append_cons h, heq, takeWhile_append_cons h']
  exact ⟨rfl, (List.cons.inj (List.append_cancel_left heq)).2⟩

/-! ## The last occurrence -/

/-- The last occurrence is where the pattern is found and nowhere after. -/
theorem rfind_eq {pat s : List Char} {i : Nat} (hi : i ≤ s.length) (h : pat.isPrefixOf (s.drop i) = true)
    (hlast : ∀ j, i < j → pat.isPrefixOf (s.drop j) = false) : rfind pat s = some i := by
  rw [rfind, List.find?_eq_some_iff_getElem]
  refine ⟨h, s.length - i, by simp only [List.length_reverse, List.length_range]; omega, ?_, ?_⟩
  · simp only [List.getElem_reverse, List.getElem_range, List.length_range]
    omega
  · intro j hj
    simp only [List.getElem_reverse, List.getElem_range, List.length_range]
    rw [hlast _ (by omega)]
    rfl

/-- A character is last where it is not in the rest. -/
theorem rfind_append_cons (h : c ∉ s) : rfind [c] (a ++ c :: s) = some a.length := by
  refine rfind_eq (by simp) (by simp) fun j hj => ?_
  obtain ⟨k, rfl⟩ : ∃ k, j = a.length + (k + 1) := ⟨j - a.length - 1, by omega⟩
  rw [List.drop_length_add_append, List.drop_succ_cons, Bool.eq_false_iff]
  intro hfound
  obtain ⟨t, ht⟩ := List.isPrefixOf_iff_prefix.1 hfound
  exact h (List.mem_of_mem_drop (ht ▸ List.mem_cons_self : c ∈ s.drop k))

theorem rfind_of_notMem (h : c ∉ s) : rfind [c] s = none := by
  rw [rfind, List.find?_eq_none]
  intro i _ hfound
  obtain ⟨t, ht⟩ := List.isPrefixOf_iff_prefix.1 hfound
  exact h (List.mem_of_mem_drop (ht ▸ List.mem_cons_self : c ∈ s.drop i))

theorem exists_last (h : c ∈ s) : ∃ a b, s = a ++ c :: b ∧ c ∉ b := by
  obtain ⟨b, a, hreverse, hb⟩ := List.eq_append_cons_of_mem (List.mem_reverse.2 h)
  refine ⟨a.reverse, b.reverse, ?_, fun hmem => hb (List.mem_reverse.1 hmem)⟩
  rw [← List.reverse_reverse s, hreverse, List.reverse_append, List.reverse_cons, List.append_assoc, List.singleton_append]

/-! ## Trimming -/

/-- Around a word that is not blank at its ends, the blanks at both ends are trimmed. -/
theorem trim_around {w : List Char} (hhead : ∃ c ∈ w.head?, isWhitespace c = false) (hlast : ∃ c ∈ w.getLast?, isWhitespace c = false)
    (a b : List Char) : trim (a ++ (w ++ b)) = a.dropWhile isWhitespace ++ (w ++ (b.reverse.dropWhile isWhitespace).reverse) := by
  have hfirst : ∀ (u v : List Char), (∃ c ∈ v.head?, isWhitespace c = false) →
      (u ++ v).dropWhile isWhitespace = u.dropWhile isWhitespace ++ v := by
    rintro u v ⟨c, hc, hblank⟩
    obtain ⟨v, rfl⟩ := List.head?_eq_some_iff.1 hc
    rw [List.dropWhile_append]
    split
    · next hnil => rw [List.isEmpty_iff.1 hnil, List.dropWhile_cons_of_neg (by simp [hblank]), List.nil_append]
    · rfl
  obtain ⟨c, hc, hblank⟩ := hhead
  obtain ⟨d, hd, hblank'⟩ := hlast
  have hne : w ≠ [] := by
    rintro rfl
    cases hc
  unfold trim
  rw [hfirst a (w ++ b) ⟨c, by rw [List.head?_append_of_ne_nil _ hne]; exact hc, hblank⟩, List.reverse_append, List.reverse_append,
    List.append_assoc, hfirst b.reverse _ ⟨d, by
      rw [List.head?_append_of_ne_nil _ (by simpa using hne), List.head?_reverse]; exact hd, hblank'⟩]
  simp

theorem exists_trim (text : List Char) : ∃ before after, text = before ++ (trim text ++ after) ∧
    (∀ c ∈ before, isWhitespace c = true) ∧ ∀ c ∈ after, isWhitespace c = true := by
  refine ⟨text.takeWhile isWhitespace, ((text.dropWhile isWhitespace).reverse.takeWhile isWhitespace).reverse, ?_, ?_, ?_⟩
  · unfold trim
    rw [← List.reverse_append, List.takeWhile_append_dropWhile, List.reverse_reverse, List.takeWhile_append_dropWhile]
  · exact fun c hc => List.mem_takeWhile_imp hc
  · exact fun c hc => List.mem_takeWhile_imp (List.mem_reverse.1 hc)

end Anylinuxfs
