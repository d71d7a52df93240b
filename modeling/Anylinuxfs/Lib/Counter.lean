import Mathlib.Algebra.GroupWithZero.Nat
import Mathlib.Data.List.Nodup
import Mathlib.Data.List.Range

/-!
# Wrapping counters

A 64-bit counter that is read and then incremented, as a source of identifiers: the numbers it hands out are distinct as long as
it has not come around.
-/

namespace Counter

/-- What the counter has handed out after `n` draws, from zero on. -/
def drawn (n : Nat) : List UInt64 := (List.range n).map UInt64.ofNat

@[simp] theorem length_drawn (n : Nat) : (drawn n).length = n := by
  simp [drawn]

/-- A draw adds the value of the counter, which is the number of draws as a 64-bit number. -/
theorem drawn_succ (n : Nat) : drawn (n + 1) = drawn n ++ [UInt64.ofNat n] := by
  simp [drawn, List.range_succ]

/-- The counter after one more draw. -/
theorem ofNat_succ (n : Nat) : UInt64.ofNat n + 1 = UInt64.ofNat (n + 1) := by
  rw [UInt64.ofNat_add]
  rfl

theorem getElem?_drawn {n i : Nat} {id : UInt64} : (drawn n)[i]? = some id ↔ i < n ∧ id = UInt64.ofNat i := by
  rw [drawn, List.getElem?_map, Option.map_eq_some_iff]
  constructor
  · rintro ⟨j, hj, rfl⟩
    obtain ⟨hlt, rfl⟩ := List.getElem?_eq_some_iff.1 hj
    rw [List.length_range] at hlt
    exact ⟨hlt, by rw [List.getElem_range]⟩
  · rintro ⟨hi, rfl⟩
    exact ⟨i, List.getElem?_range hi, rfl⟩

/-- Before the counter has come around, an identifier tells the draw that it is from. -/
theorem ofNat_eq_iff {n : Nat} {id : UInt64} (h : n < 2 ^ 64) : UInt64.ofNat n = id ↔ n = id.toNat := by
  constructor
  · rintro rfl
    rw [UInt64.toNat_ofNat', Nat.mod_eq_of_lt h]
  · rintro rfl
    exact UInt64.ofNat_toNat

theorem ofNat_injOn {m n : Nat} (hm : m < 2 ^ 64) (hn : n < 2 ^ 64) (h : UInt64.ofNat m = UInt64.ofNat n) : m = n := by
  rw [(ofNat_eq_iff hm).1 h, UInt64.toNat_ofNat', Nat.mod_eq_of_lt hn]

/-- The identifiers are distinct exactly until the counter has come around. -/
theorem nodup_drawn_iff {n : Nat} : (drawn n).Nodup ↔ n ≤ 2 ^ 64 := by
  constructor
  · intro h
    by_contra hlt
    rw [not_le] at hlt
    -- the first draw and the one after all the others
    have hzero : (drawn n)[0]? = some 0 := getElem?_drawn.2 ⟨by omega, rfl⟩
    have hlast : (drawn n)[2 ^ 64]? = some 0 := getElem?_drawn.2 ⟨hlt, rfl⟩
    refine List.nodup_iff_getElem?_ne_getElem?.1 h 0 (2 ^ 64) (Nat.two_pow_pos 64) ?_ (hzero.trans hlast.symm)
    rw [length_drawn]
    exact hlt
  · intro h
    refine List.Nodup.map_on ?_ List.nodup_range
    intro x hx y hy hxy
    rw [List.mem_range] at hx hy
    exact ofNat_injOn (lt_of_lt_of_le hx h) (lt_of_lt_of_le hy h) hxy

end Counter
