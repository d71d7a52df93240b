import Mathlib.Data.Nat.Basic
import Mathlib.Algebra.Order.Ring.Nat
import Mathlib.Tactic.Ring

/-!
# Blocks of addresses

Addresses are numbers of `w` bits, and the block `/p` of an address is the set of addresses that agree with it on the first `p`
bits. Two blocks are nested or disjoint, because "in one block `/p`" (`Same`) is an equivalence that grows as `p` shrinks; most
of what a proof about networks needs follows from that, without arithmetic.
-/

namespace Cidr

variable {w p q x y z : Nat}

/-- The number of addresses of a block `/p`. -/
def size (w p : Nat) : Nat := 2 ^ (w - p)

/-- The first address of the block `/p` of `x`. -/
def first (w p x : Nat) : Nat := x / size w p * size w p

/-- The last address of the block `/p` of `x`. -/
def last (w p x : Nat) : Nat := first w p x + (size w p - 1)

/-- Two addresses in one block `/p`. -/
def Same (w p x y : Nat) : Prop := x / size w p = y / size w p

instance (w p x y : Nat) : Decidable (Same w p x y) := inferInstanceAs (Decidable (_ = _))

theorem size_pos (w p : Nat) : 0 < size w p := Nat.two_pow_pos _

theorem size_dvd (h : q ≤ p) : size w p ∣ size w q := Nat.pow_dvd_pow 2 (by omega)

theorem size_le (h : q ≤ p) : size w p ≤ size w q := Nat.le_of_dvd (size_pos w q) (size_dvd h)

/-- A block is at least two blocks of a longer prefix. -/
theorem two_size_le (h : q < p) (hp : p ≤ w) : 2 * size w p ≤ size w q := by
  have hsucc : size w (p - 1) = 2 * size w p := by
    unfold size
    rw [show w - (p - 1) = (w - p) + 1 by omega, Nat.pow_succ]
    omega
  rw [← hsucc]
  exact size_le (by omega)

/-! ## In one block -/

theorem Same.refl (w p x : Nat) : Same w p x x := rfl

theorem Same.symm (h : Same w p x y) : Same w p y x := Eq.symm h

theorem Same.trans (h : Same w p x y) (h' : Same w p y z) : Same w p x z := Eq.trans h h'

/-- A shorter prefix gives a larger block. -/
theorem Same.mono (h : Same w p x y) (hq : q ≤ p) : Same w q x y := by
  obtain ⟨k, hk⟩ := size_dvd (w := w) hq
  unfold Same at h ⊢
  rw [hk, ← Nat.div_div_eq_div_mul, ← Nat.div_div_eq_div_mul, h]

theorem first_le (w p x : Nat) : first w p x ≤ x := Nat.div_mul_le_self x _

theorem lt_first_add_size (w p x : Nat) : x < first w p x + size w p := by
  have h := Nat.mod_lt x (size_pos w p)
  have h' := Nat.div_add_mod x (size w p)
  unfold first
  rw [Nat.mul_comm] at h'
  omega

theorem Same.first_eq (h : Same w p x y) : first w p x = first w p y := by
  unfold first
  rw [h]

/-- The addresses of a block are an interval. -/
theorem same_iff : Same w p x y ↔ first w p x ≤ y ∧ y < first w p x + size w p := by
  constructor
  · intro h
    rw [h.first_eq]
    exact ⟨first_le w p y, lt_first_add_size w p y⟩
  · rintro ⟨h1, h2⟩
    refine (Nat.div_eq_of_lt_le h1 ?_).symm
    rw [Nat.add_mul, Nat.one_mul]
    exact h2

theorem same_first (w p x : Nat) : Same w p x (first w p x) :=
  same_iff.2 ⟨Nat.le_refl _, Nat.lt_add_of_pos_right (size_pos w p)⟩

theorem same_last (w p x : Nat) : Same w p x (last w p x) := by
  have := size_pos w p
  exact same_iff.2 ⟨Nat.le_add_right _ _, by unfold last; omega⟩

theorem first_first (h : q ≤ p) : first w q (first w p x) = first w q x :=
  ((same_first w p x).mono h).first_eq.symm

/-- The block of a longer prefix lies in the block of a shorter one. -/
theorem first_mono (h : q ≤ p) : first w q x ≤ first w p x := by
  rw [← first_first h]
  exact first_le _ _ _

theorem end_mono (h : q ≤ p) : first w p x + size w p ≤ first w q x + size w q := by
  have hs := (same_iff (w := w)).1 ((same_last w p x).mono h)
  have := size_pos w p
  have hl : last w p x + 1 = first w p x + size w p := by unfold last; omega
  omega

/-! ## Two blocks -/

/-- The interval of one block lies in that of another exactly when its prefix is no shorter and the two share an address. -/
theorem within_iff (hp : p ≤ w) : first w p x ≤ first w q y ∧ last w q y ≤ last w p x ↔ p ≤ q ∧ Same w p x y := by
  have hpos := size_pos w p
  have hpos' := size_pos w q
  constructor
  · rintro ⟨h1, h2⟩
    unfold last at h2
    refine ⟨?_, same_iff.2 ⟨Nat.le_trans h1 (first_le _ _ _), ?_⟩⟩
    · refine Classical.byContradiction fun hn => ?_
      have := two_size_le (w := w) (Nat.lt_of_not_le hn) hp
      omega
    · have := lt_first_add_size w q y
      omega
  · rintro ⟨hle, hs⟩
    have h1 := first_mono (w := w) (x := y) hle
    have h2 := end_mono (w := w) (x := y) hle
    rw [hs.first_eq]
    refine ⟨h1, ?_⟩
    unfold last
    rw [hs.first_eq]
    omega

/-- Two blocks have an address in common exactly when they lie in one block of the shorter prefix. -/
theorem overlap_iff : (∃ z, Same w p x z ∧ Same w q y z) ↔ Same w (min p q) x y := by
  constructor
  · rintro ⟨z, hx, hy⟩
    exact (hx.mono (Nat.min_le_left p q)).trans (hy.mono (Nat.min_le_right p q)).symm
  · intro h
    rcases Nat.le_total p q with hle | hle
    · rw [Nat.min_eq_left hle] at h
      exact ⟨y, h, Same.refl _ _ _⟩
    · rw [Nat.min_eq_right hle] at h
      exact ⟨x, Same.refl _ _ _, h.symm⟩

/-- The starts of blocks `/p`. -/
def Aligned (w p x : Nat) : Prop := first w p x = x

theorem aligned_first (w p x : Nat) : Aligned w p (first w p x) := first_first (Nat.le_refl p)

theorem Aligned.mono (h : Aligned w q x) (hq : q ≤ p) : Aligned w p x := by
  have h1 := first_mono (w := w) (x := x) hq
  have h2 := first_le w p x
  unfold Aligned at h ⊢
  omega

theorem aligned_iff_dvd : Aligned w p x ↔ size w p ∣ x := by
  unfold Aligned first
  constructor
  · intro h
    exact ⟨x / size w p, by rw [Nat.mul_comm]; exact h.symm⟩
  · exact Nat.div_mul_cancel

/-- The block after a block of the same size. -/
theorem aligned_next (h : Aligned w p x) : Aligned w p (x + size w p) :=
  aligned_iff_dvd.2 (Nat.dvd_add (aligned_iff_dvd.1 h) (Nat.dvd_refl _))

/-- A block consists of blocks of a longer prefix. -/
theorem size_eq_mul (h : p ≤ q) (hq : q ≤ w) : size w p = 2 ^ (q - p) * size w q := by
  have hsum : w - p = (q - p) + (w - q) := by omega
  unfold size
  rw [hsum, Nat.pow_add]

/-- The blocks that a block consists of start at the multiples of their size from its first address on. -/
theorem aligned_same_iff (h : p ≤ q) (hq : q ≤ w) :
    Aligned w q y ∧ Same w p x y ↔ ∃ i < 2 ^ (q - p), y = first w p x + i * size w q := by
  have hsize := size_eq_mul h hq
  have hstart : size w q ∣ first w p x := aligned_iff_dvd.1 ((aligned_first w p x).mono h)
  rw [aligned_iff_dvd, same_iff, hsize]
  constructor
  · rintro ⟨hy, hle, hlt⟩
    obtain ⟨i, hi⟩ := Nat.dvd_sub hy hstart
    rw [Nat.mul_comm] at hi
    refine ⟨i, ?_, by omega⟩
    have hmul : i * size w q < 2 ^ (q - p) * size w q := by omega
    exact Nat.lt_of_mul_lt_mul_right hmul
  · rintro ⟨i, hi, rfl⟩
    have hmul : i * size w q < 2 ^ (q - p) * size w q := Nat.mul_lt_mul_of_pos_right hi (size_pos w q)
    exact ⟨Nat.dvd_add hstart (Nat.dvd_mul_left _ _), Nat.le_add_right _ _, by omega⟩

/-- Of two blocks with no address in common, one ends before the other begins. -/
theorem separate (h : ¬Same w (min p q) x y) :
    first w p x + size w p ≤ first w q y ∨ first w q y + size w q ≤ first w p x := by
  rcases Nat.lt_or_ge (first w p x) (first w q y) with hlt | hge
  · refine Or.inl (Nat.le_of_not_lt fun hn => h (overlap_iff.1 ⟨first w q y, ?_, same_first _ _ _⟩))
    exact same_iff.2 ⟨Nat.le_of_lt hlt, hn⟩
  · refine Or.inr (Nat.le_of_not_lt fun hn => h (overlap_iff.1 ⟨first w p x, same_first _ _ _, ?_⟩))
    exact same_iff.2 ⟨hge, hn⟩

end Cidr
