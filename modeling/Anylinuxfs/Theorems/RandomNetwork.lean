import Mathlib.Data.Set.Function
import Anylinuxfs.RandomNetwork
import Anylinuxfs.Theorems.Netutil

/-!
# What the random picker returns

The blocks of a pool are numbered without gaps, so that every index gives one of them, and the picker returns the first one that
no used network overlaps.
-/

namespace Anylinuxfs

open Cidr

variable {prefixLen index : Nat} {pool candidate : Ipv4Net} {used : List Ipv4Net}

/-- Networks overlap when one of them contains the other. -/
theorem networkOverlapsAny_eq_false_iff : networkOverlapsAny candidate used = false ↔ FreeNet used candidate := by
  rw [freeNet_iff, ← conflicting_eq_nil_iff, conflicting, List.filter_eq_nil_iff, networkOverlapsAny, List.any_eq_false]

/-- An aligned block of the pool, in terms of its first address. -/
theorem alignedBlock_inPool_iff (h1 : pool.prefixLen ≤ prefixLen) (h2 : prefixLen ≤ 32) :
    AlignedBlock prefixLen candidate ∧ InPool pool candidate ↔
      candidate.prefixLen = prefixLen ∧ ∃ i < candidateCount prefixLen pool, (candidate.addr : Nat) = candidateSum prefixLen pool i := by
  have hblocks := aligned_same_iff (w := 32) (x := pool.addr) (y := candidate.addr) h1 h2
  constructor
  · rintro ⟨⟨rfl, haddr⟩, hin⟩
    exact ⟨rfl, hblocks.1 ⟨(congrArg Fin.val haddr).symm, (inPool_iff h1).1 hin⟩⟩
  · rintro ⟨rfl, hi⟩
    obtain ⟨haligned, hsame⟩ := hblocks.2 hi
    exact ⟨⟨rfl, Fin.ext haligned.symm⟩, (inPool_iff h1).2 hsame⟩

/-- The sum is an address. -/
theorem candidateSum_lt (h1 : pool.prefixLen ≤ prefixLen) (h2 : prefixLen ≤ 32) (hindex : index < candidateCount prefixLen pool) :
    candidateSum prefixLen pool index < 2 ^ 32 := by
  obtain ⟨-, hsame⟩ := (aligned_same_iff (w := 32) (x := pool.addr) h1 h2).2 ⟨index, hindex, rfl⟩
  have hlast := ((Net.mem_iff (n := pool)).2 hsame).2
  exact Nat.lt_of_le_of_lt hlast pool.broadcast.isLt

/-- Every index gives a block of the pool. -/
theorem networkInPoolByIndex_eq (h1 : pool.prefixLen ≤ prefixLen) (h2 : prefixLen ≤ 32)
    (hindex : index < candidateCount prefixLen pool) :
    networkInPoolByIndex prefixLen pool index = .ok ⟨⟨candidateSum prefixLen pool index, candidateSum_lt h1 h2 hindex⟩, prefixLen, h2⟩ := by
  rw [networkInPoolByIndex, Net.new, dif_pos h2]
  dsimp only
  congr 3
  exact Fin.ext (Nat.mod_eq_of_lt (candidateSum_lt h1 h2 hindex))

/-- The indices are the numbers of the aligned blocks of the pool. -/
theorem bijOn_networkInPoolByIndex (h1 : pool.prefixLen ≤ prefixLen) (h2 : prefixLen ≤ 32) :
    Set.BijOn (networkInPoolByIndex prefixLen pool) (Set.Iio (candidateCount prefixLen pool))
      {r | ∃ n, r = .ok n ∧ AlignedBlock prefixLen n ∧ InPool pool n} := by
  refine ⟨?_, ?_, ?_⟩
  · intro index hindex
    exact ⟨_, networkInPoolByIndex_eq h1 h2 hindex, (alignedBlock_inPool_iff h1 h2).2 ⟨rfl, index, hindex, rfl⟩⟩
  · intro i hi j hj heq
    rw [networkInPoolByIndex_eq h1 h2 hi, networkInPoolByIndex_eq h1 h2 hj] at heq
    have hsum : candidateSum prefixLen pool i = candidateSum prefixLen pool j :=
      congrArg (fun n : Ipv4Net => (n.addr : Nat)) (Except.ok.inj heq)
    exact Nat.eq_of_mul_eq_mul_right (Nat.two_pow_pos _) (Nat.add_left_cancel hsum)
  · rintro r ⟨n, rfl, hn⟩
    obtain ⟨hlen, i, hi, haddr⟩ := (alignedBlock_inPool_iff h1 h2).1 hn
    refine ⟨i, hi, (networkInPoolByIndex_eq h1 h2 hi).trans ?_⟩
    exact congrArg _ (Net.ext (Fin.ext haddr.symm) hlen.symm)

/-- What the loop returns is a block of the pool with one of the indices, and is free. -/
theorem tryIndices_spec (h1 : pool.prefixLen ≤ prefixLen) (h2 : prefixLen ≤ 32) {indices : List Nat}
    (hindices : ∀ i ∈ indices, i < candidateCount prefixLen pool) :
    ∃ r, tryIndices prefixLen used pool indices = .ok r ∧
      ∀ n, r = some n → AlignedBlock prefixLen n ∧ InPool pool n ∧ FreeNet used n := by
  induction indices with
  | nil => exact ⟨none, rfl, nofun⟩
  | cons index indices ih =>
    obtain ⟨candidate, hcandidate, haligned, hin⟩ := (bijOn_networkInPoolByIndex h1 h2).mapsTo (hindices index List.mem_cons_self)
    have hstep : tryIndices prefixLen used pool (index :: indices) =
        if networkOverlapsAny candidate used then tryIndices prefixLen used pool indices else .ok (some candidate) := by
      rw [tryIndices, hcandidate]
      rfl
    rw [hstep]
    cases hoverlaps : networkOverlapsAny candidate used with
    | true => exact ih fun i hi => hindices i (List.mem_cons_of_mem index hi)
    | false =>
      refine ⟨some candidate, rfl, fun n hn => ?_⟩
      obtain rfl := Option.some.inj hn
      exact ⟨haligned, hin, networkOverlapsAny_eq_false_iff.1 hoverlaps⟩

/-- The random picker returns nothing or a free aligned block of the pool; the indices are one to one with these blocks, and no
number exceeds 32 bits. -/
theorem pickRandom_inPool (used : List Ipv4Net) (maxAttempts : Nat) (rng : Nat → Fin (candidateCount prefixLen pool))
    (h1 : pool.prefixLen < prefixLen) (h2 : prefixLen ≤ 32) :
    (∃ r, pickRandomAvailableNetworkInPool prefixLen used pool maxAttempts rng = .ok r ∧
        ∀ n, r = some n → AlignedBlock prefixLen n ∧ InPool pool n ∧ FreeNet used n) ∧
      Set.BijOn (networkInPoolByIndex prefixLen pool) (Set.Iio (candidateCount prefixLen pool))
        {r | ∃ n, r = .ok n ∧ AlignedBlock prefixLen n ∧ InPool pool n} ∧
      blockSize prefixLen < 2 ^ 32 ∧ ∀ index < candidateCount prefixLen pool, candidateSum prefixLen pool index < 2 ^ 32 := by
  have hle := Nat.le_of_lt h1
  refine ⟨?_, bijOn_networkInPoolByIndex hle h2, ?_, fun index hindex => candidateSum_lt hle h2 hindex⟩
  · rw [pickRandomAvailableNetworkInPool, if_neg (Nat.not_lt.2 h2), if_neg (Nat.not_le.2 h1)]
    split
    · exact ⟨none, rfl, nofun⟩
    · refine tryIndices_spec hle h2 fun i hi => ?_
      obtain ⟨attempt, -, rfl⟩ := List.mem_map.1 hi
      exact (rng attempt).isLt
  · exact Nat.pow_lt_pow_right (by decide) (by omega)

/-- A used network of the default pool. -/
def usedNets : List Ipv4Net := [⟨ipv4 172 27 1 0, 24, by decide⟩]

/-- A generator that counts. -/
def countingRng : Nat → Fin (candidateCount 30 defaultVmnetPool) := fun attempt => ⟨attempt % 2 ^ 18, Nat.mod_lt _ (Nat.two_pow_pos 18)⟩

theorem pickRandom_inPool_default :
    (∃ r, pickRandomAvailableNetworkInPool 30 usedNets defaultVmnetPool 3 countingRng = .ok r ∧
        ∀ n, r = some n → AlignedBlock 30 n ∧ InPool defaultVmnetPool n ∧ FreeNet usedNets n) ∧
      Set.BijOn (networkInPoolByIndex 30 defaultVmnetPool) (Set.Iio (candidateCount 30 defaultVmnetPool))
        {r | ∃ n, r = .ok n ∧ AlignedBlock 30 n ∧ InPool defaultVmnetPool n} ∧
      blockSize 30 < 2 ^ 32 ∧ ∀ index < candidateCount 30 defaultVmnetPool, candidateSum 30 defaultVmnetPool index < 2 ^ 32 :=
  pickRandom_inPool usedNets 3 countingRng (by decide) (by decide)

end Anylinuxfs
