import Mathlib.Data.List.Basic

/-!
# Buffers that are filled piece by piece

Slices with signed bounds, which must lie in the list, and a buffer that is filled from a source, of which it has the beginning.
A source is handed out in blocks of one size, the last of which is padded.
-/

namespace Buffer

variable {α : Type} {src p data : List α} {o i j k size b x y : Nat}

/-- The bounds of a slice. -/
def InBounds (l : List α) (a b : Int) : Prop := 0 ≤ a ∧ a ≤ b ∧ b ≤ l.length

instance (l : List α) (a b : Int) : Decidable (InBounds l a b) := inferInstanceAs (Decidable (_ ∧ _ ∧ _))

/-- The elements from the index `a` to before the index `b`. -/
def slice (l : List α) (a b : Int) : Option (List α) :=
  if InBounds l a b then some ((l.take b.toNat).drop a.toNat) else none

/-- The elements from the index `a` to before the index `b` are overwritten with as many of a piece as there are. -/
def copyTo (l : List α) (a b : Int) (piece : List α) : Option (List α) :=
  if InBounds l a b then
    let written := piece.take (b - a).toNat
    some (l.take a.toNat ++ written ++ l.drop (a.toNat + written.length))
  else none

/-- The beginning of the buffer is what the source has from an offset on. -/
structure Filled (src : List α) (o : Nat) (p : List α) (k : Nat) : Prop where
  le_length : k ≤ p.length
  take_eq : p.take k = (src.drop o).take k

theorem filled_zero (src : List α) (o : Nat) (p : List α) : Filled src o p 0 := ⟨Nat.zero_le _, rfl⟩

/-- A buffer that is filled to its end. -/
theorem Filled.eq_take (h : Filled src o p p.length) : p = (src.drop o).take p.length := by
  have htake := h.take_eq
  rwa [List.take_length] at htake

/-- The next piece of the source fills the buffer further. -/
theorem Filled.copyTo (h : Filled src o p i) (hij : i ≤ j) (hj : j ≤ p.length) (hsrc : o + j ≤ src.length) :
    ∃ p', copyTo p i j ((src.drop (o + i)).take (j - i)) = some p' ∧ p'.length = p.length ∧ Filled src o p' j := by
  have hpiece : ((src.drop (o + i)).take (j - i)).length = j - i := by
    rw [List.length_take, List.length_drop]
    omega
  have hbounds : InBounds p i j := ⟨by omega, by omega, by omega⟩
  have htoNat : ((j : Int) - i).toNat = j - i := by omega
  refine ⟨p.take i ++ (src.drop (o + i)).take (j - i) ++ p.drop j, ?_, ?_, ?_, ?_⟩
  · rw [Buffer.copyTo, if_pos hbounds]
    dsimp only
    rw [Int.toNat_natCast, htoNat, List.take_take, Nat.min_self, hpiece]
    congr 3
    omega
  · rw [List.length_append, List.length_append, hpiece, List.length_take, List.length_drop]
    omega
  · rw [List.length_append, List.length_append, hpiece, List.length_take, List.length_drop]
    omega
  · have hlen : (p.take i ++ (src.drop (o + i)).take (j - i)).length = j := by
      rw [List.length_append, hpiece, List.length_take]
      omega
    rw [List.take_append_of_le_length (Nat.le_of_eq hlen.symm), List.take_of_length_le (Nat.le_of_eq hlen), h.take_eq]
    have hsum : j = i + (j - i) := by omega
    conv_rhs => rw [hsum, List.take_add, List.drop_drop]

/-! ## Blocks -/

/-- The block with a number; what the source has not is filled with `pad`. -/
def paddedBlock (src : List α) (size : Nat) (pad : α) (b : Nat) : List α :=
  (src.drop (b * size)).take size ++ List.replicate (size - ((src.drop (b * size)).take size).length) pad

theorem length_paddedBlock (src : List α) (size : Nat) (pad : α) (b : Nat) : (paddedBlock src size pad b).length = size := by
  rw [paddedBlock, List.length_append, List.length_replicate]
  have hle : ((src.drop (b * size)).take size).length ≤ size := List.length_take_le _ _
  omega

theorem getD_paddedBlock (src : List α) {size i : Nat} (pad : α) (b : Nat) (hi : i < size) :
    (paddedBlock src size pad b).getD i pad = src.getD (b * size + i) pad := by
  have htake : ((src.drop (b * size)).take size)[i]? = src[b * size + i]? := by
    rw [List.getElem?_take_of_lt hi, List.getElem?_drop]
  rw [List.getD_eq_getElem?_getD, List.getD_eq_getElem?_getD, paddedBlock]
  by_cases hlt : i < ((src.drop (b * size)).take size).length
  · rw [List.getElem?_append_left hlt, htake]
  · have hnone : src[b * size + i]? = none := by
      rw [← htake]
      exact List.getElem?_eq_none (Nat.le_of_not_lt hlt)
    rw [hnone, List.getElem?_append_right (Nat.le_of_not_lt hlt), List.getElem?_replicate]
    split <;> rfl

/-- Two blocks are the same if their sources, padded, have the same elements there. -/
theorem paddedBlock_eq_iff {src' : List α} {pad : α} {b' : Nat} :
    paddedBlock src size pad b = paddedBlock src' size pad b' ↔ ∀ i < size, src.getD (b * size + i) pad = src'.getD (b' * size + i) pad := by
  constructor
  · intro h i hi
    rw [← getD_paddedBlock src pad b hi, ← getD_paddedBlock src' pad b' hi, h]
  · intro h
    refine List.ext_getElem (by rw [length_paddedBlock, length_paddedBlock]) fun i hi hi' => ?_
    have hsize : i < size := length_paddedBlock src size pad b ▸ hi
    rw [List.getElem_eq_getD pad, List.getElem_eq_getD pad, getD_paddedBlock src pad b hsize, getD_paddedBlock src' pad b' hsize,
      h i hsize]

/-- A part of a block that the source has. -/
theorem slice_paddedBlock {pad : α} (hx : b * size ≤ x) (hxy : x ≤ y) (hy : y ≤ b * size + size) (hsrc : y ≤ src.length) :
    slice (paddedBlock src size pad b) (x - (b * size : Nat) : Int) (y - (b * size : Nat) : Int) =
      some ((src.drop x).take (y - x)) := by
  have hbounds : InBounds (paddedBlock src size pad b) (x - (b * size : Nat) : Int) (y - (b * size : Nat) : Int) := by
    refine ⟨by omega, by omega, ?_⟩
    rw [length_paddedBlock]
    omega
  have htoNatx : ((x : Int) - (b * size : Nat)).toNat = x - b * size := by omega
  have htoNaty : ((y : Int) - (b * size : Nat)).toNat = y - b * size := by omega
  have hdrop : b * size + (x - b * size) = x := by omega
  have htake : y - b * size - (x - b * size) = y - x := by omega
  rw [slice, if_pos hbounds, htoNatx, htoNaty, paddedBlock, List.take_append_of_le_length, List.take_take, List.drop_take,
    List.drop_drop, hdrop, Nat.min_eq_left (by omega), htake]
  rw [List.length_take, List.length_drop]
  omega

end Buffer
