import Mathlib.Data.List.Infix

/-!
# Lines of exports files

The bytes that exports files of Linux and of FreeBSD have in common, and the lines that go on in the next line.
-/

namespace Exports

/-- The end of a line. -/
def newline : UInt8 := 0x0a

/-- `\`. -/
def backslash : UInt8 := 0x5c

/-- `#`. -/
def hash : UInt8 := 0x23

/-- A blank between fields. -/
def isBlank (b : UInt8) : Bool := b = 0x20 || b = 0x09

/-- A backslash at the end of a line makes it go on with the next one. -/
def joinLines : List UInt8 → List UInt8
  | b :: c :: rest => if b = backslash ∧ c = newline then 0x20 :: joinLines rest else b :: joinLines (c :: rest)
  | text => text

theorem joinLines_cons {b : UInt8} (h : b ≠ backslash) (rest : List UInt8) : joinLines (b :: rest) = b :: joinLines rest := by
  cases rest with
  | nil => rfl
  | cons c rest => simp [joinLines, h]

/-- Lines are joined on both sides of a byte that is no part of a continued line. -/
theorem joinLines_append {c : UInt8} (hc : c ≠ newline) (hb : c ≠ backslash) (s t : List UInt8) :
    joinLines (s ++ c :: t) = joinLines s ++ c :: joinLines t := by
  induction s using joinLines.induct with
  | case1 b d rest h ih => simp [joinLines, h, ih]
  | case2 b d rest h ih => simpa [joinLines, h] using ih
  | case3 s h =>
    match s with
    | [] => exact joinLines_cons hb t
    | [b] => simp [joinLines, hc, joinLines_cons hb]
    | b :: d :: rest => exact absurd rfl (h b d rest)

theorem joinLines_append_left {s : List UInt8} (h : backslash ∉ s) (t : List UInt8) : joinLines (s ++ t) = s ++ joinLines t := by
  induction s with
  | nil => rfl
  | cons b s ih =>
    rw [List.mem_cons, not_or] at h
    rw [List.cons_append, joinLines_cons (Ne.symm h.1), ih h.2, List.cons_append]

/-- Nothing is joined exactly if no line is continued. -/
theorem joinLines_eq_self_iff {s : List UInt8} : joinLines s = s ↔ ¬ [backslash, newline] <:+: s := by
  induction s using joinLines.induct with
  | case1 b c rest h ih =>
    obtain ⟨rfl, rfl⟩ := h
    have hblank : (0x20 : UInt8) ≠ backslash := by decide
    have hpre : [backslash, newline] <+: backslash :: newline :: rest := List.prefix_append [backslash, newline] rest
    simp [joinLines, hblank, hpre.isInfix]
  | case2 b c rest h ih =>
    have hpre : ¬ [backslash, newline] <+: b :: c :: rest := by
      rintro ⟨t, ht⟩
      obtain ⟨hb, htail⟩ := List.cons.inj ht
      exact h ⟨hb.symm, (List.cons.inj htail).1.symm⟩
    rw [joinLines, if_neg h, List.cons_inj_right, ih]
    exact not_congr (List.infix_cons_iff.trans (or_iff_right hpre)).symm
  | case3 s h =>
    rw [joinLines.eq_2 s h]
    refine iff_of_true rfl fun hin => ?_
    match s with
    | [] => exact absurd (List.infix_nil.1 hin) (by simp)
    | [b] => exact absurd hin.length_le (by simp)
    | b :: d :: rest => exact h b d rest rfl

end Exports
