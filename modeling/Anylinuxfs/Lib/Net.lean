import Anylinuxfs.Lib.Cidr
import Mathlib.Data.Fin.Basic
import Mathlib.Data.List.Range

/-!
# Networks

A network is an address and the length of its prefix, as in the `ipnet` crate: the address may have bits of its own beyond the
prefix, and the network is the block of addresses that share the prefix. Order and equality compare the address first, then the
prefix length.
-/

namespace Cidr

/-- An address of `w` bits with the length of its prefix. -/
@[ext] structure Net (w : Nat) where
  addr : Fin (2 ^ w)
  prefixLen : Nat
  prefixLen_le : prefixLen ≤ w
  deriving DecidableEq, Repr

/-- There are addresses. -/
instance neZeroTwoPow (w : Nat) : NeZero (2 ^ w) := inferInstance

namespace Net

variable {w : Nat}

/-- The network of an address; a prefix longer than the address is an error. -/
def new (addr : Fin (2 ^ w)) (prefixLen : Nat) : Option (Net w) :=
  if h : prefixLen ≤ w then some ⟨addr, prefixLen, h⟩ else none

/-- The first address of the network. -/
def network (n : Net w) : Fin (2 ^ w) :=
  ⟨first w n.prefixLen n.addr, Nat.lt_of_le_of_lt (first_le _ _ _) n.addr.isLt⟩

theorem last_lt (n : Net w) : last w n.prefixLen n.addr < 2 ^ w := by
  have h := end_mono (w := w) (x := n.addr) (Nat.zero_le n.prefixLen)
  have h0 : first w 0 n.addr = 0 := by
    unfold first size
    rw [Nat.sub_zero, Nat.div_eq_of_lt n.addr.isLt, Nat.zero_mul]
  have hs : size w 0 = 2 ^ w := rfl
  have := size_pos w n.prefixLen
  unfold last
  omega

/-- The last address of the network. -/
def broadcast (n : Net w) : Fin (2 ^ w) := ⟨last w n.prefixLen n.addr, n.last_lt⟩

/-- The address belongs to the network. -/
def Mem (n : Net w) (y : Nat) : Prop := n.network ≤ y ∧ y ≤ n.broadcast

/-- Whether all addresses of `m` belong to `n`. -/
def contains (n m : Net w) : Bool := n.network ≤ m.network ∧ m.broadcast ≤ n.broadcast

/-- The order of networks. -/
def lt (n m : Net w) : Bool := n.addr < m.addr ∨ (n.addr = m.addr ∧ n.prefixLen < m.prefixLen)

def le (n m : Net w) : Bool := n.lt m ∨ n = m

/-- The network without the bits of the address beyond the prefix. -/
def trunc (n : Net w) : Net w := ⟨n.network, n.prefixLen, n.prefixLen_le⟩

/-- The network of one bit less, without the bits beyond it. -/
def supernet (n : Net w) : Option (Net w) :=
  if n.prefixLen = 0 then none
  else some (trunc ⟨n.addr, n.prefixLen - 1, Nat.le_trans (Nat.sub_le _ _) n.prefixLen_le⟩)

/-- The networks `/prefixLen` that the network is made of, in order. -/
def subnets (n : Net w) (prefixLen : Nat) : Option (List (Net w)) :=
  if h : n.prefixLen ≤ prefixLen ∧ prefixLen ≤ w then
    some ((List.range (2 ^ (prefixLen - n.prefixLen))).map
      (fun i => ⟨Fin.ofNat (2 ^ w) (n.network + i * size w prefixLen), prefixLen, h.2⟩))
  else none

/-! ## In terms of blocks -/

theorem mem_iff {n : Net w} {y : Nat} : n.Mem y ↔ Same w n.prefixLen n.addr y := by
  have := size_pos w n.prefixLen
  rw [same_iff]
  unfold Mem network broadcast last
  simp only
  omega

theorem contains_iff {n m : Net w} :
    n.contains m = true ↔ n.prefixLen ≤ m.prefixLen ∧ Same w n.prefixLen n.addr m.addr := by
  rw [← within_iff n.prefixLen_le]
  simp [contains, network, broadcast]

/-- Two networks have an address in common exactly when one contains the other. -/
theorem overlap_iff_contains {n m : Net w} :
    (n.contains m = true ∨ m.contains n = true) ↔ Same w (min n.prefixLen m.prefixLen) n.addr m.addr := by
  rw [contains_iff, contains_iff]
  rcases Nat.le_total n.prefixLen m.prefixLen with h | h
  · rw [Nat.min_eq_left h]
    constructor
    · rintro (⟨-, hs⟩ | ⟨hle, hs⟩)
      · exact hs
      · rw [Nat.le_antisymm h hle]
        exact hs.symm
    · exact fun hs => Or.inl ⟨h, hs⟩
  · rw [Nat.min_eq_right h]
    constructor
    · rintro (⟨hle, hs⟩ | ⟨-, hs⟩)
      · rw [Nat.le_antisymm h hle]
        exact hs
      · exact hs.symm
    · exact fun hs => Or.inr ⟨h, hs.symm⟩

/-- The block of a network determines its bounds. -/
theorem network_val (n : Net w) : (n.network : Nat) = first w n.prefixLen n.addr := rfl

theorem lt_iff {n m : Net w} :
    n.lt m = true ↔ (n.addr : Nat) < m.addr ∨ ((n.addr : Nat) = m.addr ∧ n.prefixLen < m.prefixLen) := by
  simp only [lt, decide_eq_true_eq, Fin.lt_def, Fin.ext_iff]

theorem le_iff {n m : Net w} :
    n.le m = true ↔ (n.addr : Nat) < m.addr ∨ ((n.addr : Nat) = m.addr ∧ n.prefixLen ≤ m.prefixLen) := by
  obtain ⟨a, p, hp⟩ := n
  obtain ⟨b, q, hq⟩ := m
  simp only [le, lt, Bool.decide_or, Bool.or_eq_true, decide_eq_true_eq, mk.injEq, Fin.lt_def, Fin.ext_iff]
  omega

end Net

end Cidr
