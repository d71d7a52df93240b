import Anylinuxfs.Lib.Net

/-!
# Minimal covers

The sorted minimal cover of a list of networks: the shortest list of networks with the same addresses, in order. `IsCover` says
what a function that computes it promises; `minimalCover` is such a function, which goes down the binary tree of blocks and
keeps a block as soon as all of it is covered.
-/

namespace Cidr

variable {w : Nat}

/-- The address belongs to one of the networks. -/
def Covered (l : List (Net w)) (y : Nat) : Prop := ∃ n ∈ l, n.Mem y

/-- What a function that returns the sorted minimal cover promises. -/
structure IsCover (aggregate : List (Net w) → List (Net w)) : Prop where
  covers : ∀ l y, Covered (aggregate l) y ↔ Covered l y
  sorted : ∀ l, (aggregate l).Pairwise (fun n m => n.lt m = true)
  minimal : ∀ l l' : List (Net w), (∀ y, Covered l' y ↔ Covered l y) → (aggregate l).length ≤ l'.length

/-- A list of networks that together are one block has a cover of one network, that block. -/
theorem IsCover.of_block {aggregate : List (Net w) → List (Net w)} (h : IsCover aggregate) {l : List (Net w)} {b : Net w}
    (hb : ∀ y, Covered l y ↔ b.Mem y) :
    ∃ n, aggregate l = [n] ∧ n.prefixLen = b.prefixLen ∧ n.network = b.network := by
  have hone : (aggregate l).length ≤ [b].length := h.minimal l [b] fun y => by
    rw [hb y]
    simp [Covered]
  have hmem : b.Mem b.addr := Net.mem_iff.2 (Same.refl _ _ _)
  obtain ⟨n, hn, -⟩ := (h.covers l b.addr).2 ((hb _).2 hmem)
  have hl : aggregate l = [n] := by
    match haggr : aggregate l with
    | [] =>
      rw [haggr] at hn
      cases hn
    | [m] =>
      rw [haggr, List.mem_singleton] at hn
      rw [hn]
    | m :: m' :: rest =>
      rw [haggr] at hone
      simp at hone
  have hsame : ∀ y, n.Mem y ↔ b.Mem y := by
    intro y
    rw [← hb, ← h.covers, hl]
    simp [Covered]
  -- the bounds of the two blocks lie in each other
  have hnb : n.contains b = true := by
    have h1 := (hsame b.network).2 (Net.mem_iff.2 (same_first _ _ _))
    have h2 := (hsame b.broadcast).2 (Net.mem_iff.2 (same_last _ _ _))
    simp only [Net.contains, decide_eq_true_eq]
    exact ⟨h1.1, h2.2⟩
  have hbn : b.contains n = true := by
    have h1 := (hsame n.network).1 (Net.mem_iff.2 (same_first _ _ _))
    have h2 := (hsame n.broadcast).1 (Net.mem_iff.2 (same_last _ _ _))
    simp only [Net.contains, decide_eq_true_eq]
    exact ⟨h1.1, h2.2⟩
  have hp : n.prefixLen = b.prefixLen := Nat.le_antisymm (Net.contains_iff.1 hnb).1 (Net.contains_iff.1 hbn).1
  refine ⟨n, hl, hp, Fin.ext ?_⟩
  rw [Net.network_val, Net.network_val, hp]
  exact (hp ▸ (Net.contains_iff.1 hnb).2).first_eq

/-! ## The tree of blocks

The block of height `k` and index `i` has the `2 ^ k` addresses from `i * 2 ^ k` on; its halves are the blocks of height `k - 1`
with the indices `2 * i` and `2 * i + 1`. -/

/-- The network of a block of the tree. -/
def treeNet (w k i : Nat) : Net w := ⟨Fin.ofNat (2 ^ w) (i * 2 ^ k), w - k, Nat.sub_le w k⟩

/-- Whether one of the networks has an address of the block. -/
def touched (l : List (Net w)) (k i : Nat) : Bool := l.any (fun n => n.contains (treeNet w k i) || (treeNet w k i).contains n)

/-- Whether all addresses of the block are covered. -/
def full (l : List (Net w)) : Nat → Nat → Bool
  | 0, i => touched l 0 i
  | k + 1, i =>
    l.any (fun n => n.contains (treeNet w (k + 1) i)) ||
      (touched l (k + 1) i && full l k (2 * i) && full l k (2 * i + 1))

/-- The cover of the part of the networks that lies in the block. -/
def coverIn (l : List (Net w)) : Nat → Nat → List (Net w)
  | 0, i => if full l 0 i then [treeNet w 0 i] else []
  | k + 1, i =>
    if full l (k + 1) i then [treeNet w (k + 1) i]
    else if touched l (k + 1) i then coverIn l k (2 * i) ++ coverIn l k (2 * i + 1)
    else []

/-- A block of the tree lies among the addresses of `w` bits. -/
def InTree (w k i : Nat) : Prop := k ≤ w ∧ i < 2 ^ (w - k)

variable {l l' : List (Net w)} {k i y : Nat}

theorem InTree.halves (h : InTree w (k + 1) i) : InTree w k (2 * i) ∧ InTree w k (2 * i + 1) := by
  obtain ⟨hk, hi⟩ := h
  have hpow : 2 ^ (w - k) = 2 * 2 ^ (w - (k + 1)) := by
    rw [show w - k = (w - (k + 1)) + 1 by omega, Nat.pow_succ]
    omega
  exact ⟨⟨by omega, by omega⟩, ⟨by omega, by omega⟩⟩

/-- An address of a block lies in one of its halves. -/
theorem half_iff : y / 2 ^ (k + 1) = i ↔ y / 2 ^ k = 2 * i ∨ y / 2 ^ k = 2 * i + 1 := by
  rw [Nat.pow_succ, ← Nat.div_div_eq_div_mul]
  omega

theorem mem_treeNet (h : InTree w k i) : (treeNet w k i).Mem y ↔ y / 2 ^ k = i := by
  obtain ⟨hk, hi⟩ := h
  have hlt : i * 2 ^ k < 2 ^ w := by
    calc i * 2 ^ k < 2 ^ (w - k) * 2 ^ k := Nat.mul_lt_mul_of_pos_right hi (Nat.two_pow_pos k)
      _ = 2 ^ w := by rw [← Nat.pow_add, Nat.sub_add_cancel hk]
  rw [Net.mem_iff]
  simp only [treeNet, Same, size, Fin.val_ofNat, Nat.mod_eq_of_lt hlt, Nat.sub_sub_self hk]
  rw [Nat.mul_div_cancel _ (Nat.two_pow_pos k)]
  exact eq_comm

theorem mem_of_contains {n m : Net w} (h : n.contains m = true) (hy : m.Mem y) : n.Mem y := by
  obtain ⟨hle, hs⟩ := Net.contains_iff.1 h
  exact Net.mem_iff.2 (hs.trans ((Net.mem_iff.1 hy).mono hle))

/-- Two networks with an address in common are nested. -/
theorem nested_of_mem {n m : Net w} (hn : n.Mem y) (hm : m.Mem y) : n.contains m = true ∨ m.contains n = true :=
  Net.overlap_iff_contains.2 (overlap_iff.1 ⟨y, Net.mem_iff.1 hn, Net.mem_iff.1 hm⟩)

theorem touched_of_covered (h : InTree w k i) (hy : y / 2 ^ k = i) (hc : Covered l y) : touched l k i = true := by
  obtain ⟨n, hn, hm⟩ := hc
  refine List.any_eq_true.2 ⟨n, hn, ?_⟩
  rw [Bool.or_eq_true]
  exact nested_of_mem hm ((mem_treeNet h).2 hy)

theorem full_iff (h : InTree w k i) : full l k i = true ↔ ∀ y, y / 2 ^ k = i → Covered l y := by
  induction k generalizing i with
  | zero =>
    simp only [full]
    constructor
    · intro ht y hy
      obtain ⟨n, hn, ho⟩ := List.any_eq_true.1 ht
      rw [Bool.or_eq_true] at ho
      obtain ⟨z, hz, hz'⟩ := overlap_iff.2 (Net.overlap_iff_contains.1 ho)
      have hzi := (mem_treeNet h).1 (Net.mem_iff.2 hz')
      rw [Nat.pow_zero, Nat.div_one] at hy hzi
      exact ⟨n, hn, Net.mem_iff.2 (by rw [hy, ← hzi]; exact hz)⟩
    · intro hall
      have hi : i / 2 ^ 0 = i := by simp
      exact touched_of_covered h hi (hall i hi)
  | succ k ih =>
    obtain ⟨hl, hr⟩ := h.halves
    simp only [full, Bool.or_eq_true, Bool.and_eq_true, ih hl, ih hr]
    constructor
    · rintro (hc | ⟨⟨-, hl'⟩, hr'⟩) y hy
      · obtain ⟨n, hn, hc⟩ := List.any_eq_true.1 hc
        exact ⟨n, hn, mem_of_contains hc ((mem_treeNet h).2 hy)⟩
      · rcases half_iff.1 hy with hy | hy
        · exact hl' y hy
        · exact hr' y hy
    · intro hall
      have hi : i * 2 ^ (k + 1) / 2 ^ (k + 1) = i := Nat.mul_div_cancel _ (Nat.two_pow_pos _)
      exact Or.inr ⟨⟨touched_of_covered h hi (hall _ hi), fun y hy => hall y (half_iff.2 (Or.inl hy))⟩,
        fun y hy => hall y (half_iff.2 (Or.inr hy))⟩

theorem covered_full (h : InTree w k i) (hf : full l k i = true) :
    Covered [treeNet w k i] y ↔ y / 2 ^ k = i ∧ Covered l y := by
  simp only [Covered, List.mem_singleton, exists_eq_left, mem_treeNet h]
  exact ⟨fun hy => ⟨hy, (full_iff h).1 hf y hy⟩, fun hy => hy.1⟩

theorem covered_untouched (h : InTree w k i) (ht : touched l k i = false) :
    Covered ([] : List (Net w)) y ↔ y / 2 ^ k = i ∧ Covered l y := by
  constructor
  · rintro ⟨n, hn, -⟩
    cases hn
  · rintro ⟨hy, hc⟩
    rw [touched_of_covered h hy hc] at ht
    cases ht

theorem covered_append {a b : List (Net w)} : Covered (a ++ b) y ↔ Covered a y ∨ Covered b y := by
  simp only [Covered, List.mem_append, or_and_right, exists_or]

/-- The cover of a block has the covered addresses of the block. -/
theorem covered_coverIn (h : InTree w k i) : Covered (coverIn l k i) y ↔ y / 2 ^ k = i ∧ Covered l y := by
  induction k generalizing i with
  | zero =>
    simp only [coverIn]
    split
    · rename_i hf
      exact covered_full h hf
    · rename_i hf
      exact covered_untouched h (eq_false_of_ne_true hf)
  | succ k ih =>
    obtain ⟨hl, hr⟩ := h.halves
    simp only [coverIn]
    split
    · rename_i hf
      exact covered_full h hf
    · split
      · rw [covered_append, ih hl, ih hr, half_iff, or_and_right]
      · rename_i ht
        exact covered_untouched h (eq_false_of_ne_true ht)

/-- The addresses of the networks of a cover lie in its block. -/
theorem addr_of_mem_coverIn (h : InTree w k i) {n : Net w} (hn : n ∈ coverIn l k i) : n.addr / 2 ^ k = i :=
  ((covered_coverIn h).1 ⟨n, hn, Net.mem_iff.2 (Same.refl _ _ _)⟩).1

theorem sorted_coverIn (h : InTree w k i) : (coverIn l k i).Pairwise (fun n m => n.lt m = true) := by
  induction k generalizing i with
  | zero =>
    simp only [coverIn]
    split <;> simp
  | succ k ih =>
    obtain ⟨hl, hr⟩ := h.halves
    simp only [coverIn]
    split
    · simp
    · split
      · refine List.pairwise_append.2 ⟨ih hl, ih hr, ?_⟩
        intro n hn m hm
        have h1 := addr_of_mem_coverIn hl hn
        have h2 := addr_of_mem_coverIn hr hm
        refine Net.lt_iff.2 (Or.inl (Nat.lt_of_not_le fun hle => ?_))
        have := Nat.div_le_div_right (c := 2 ^ k) hle
        omega
      · simp

/-- The network lies in the block. -/
def inBlock (k i : Nat) (n : Net w) : Bool := decide (w ≤ n.prefixLen + k ∧ n.addr / 2 ^ k = i)

/-- Two tests that exclude each other pick different elements. -/
theorem length_filter_add_le {α : Type} {p q r : α → Bool} (hp : ∀ a, p a = true → r a = true)
    (hq : ∀ a, q a = true → r a = true) (hpq : ∀ a, p a = true → q a = false) (l : List α) :
    (l.filter p).length + (l.filter q).length ≤ (l.filter r).length := by
  induction l with
  | nil => simp
  | cons a l ih =>
    simp only [List.filter_cons]
    cases hpa : p a with
    | true =>
      simp only [hp a hpa, hpq a hpa, if_true, Bool.false_eq_true, if_false, List.length_cons]
      omega
    | false =>
      cases hqa : q a with
      | true =>
        simp only [hq a hqa, if_true, Bool.false_eq_true, if_false, List.length_cons]
        omega
      | false =>
        simp only [Bool.false_eq_true, if_false]
        split
        · simp only [List.length_cons]
          omega
        · exact ih

/-- Networks of the two halves of a block are different networks of the block. -/
theorem length_filter_halves (l : List (Net w)) (k i : Nat) :
    (l.filter (inBlock k (2 * i))).length + (l.filter (inBlock k (2 * i + 1))).length ≤
      (l.filter (inBlock (k + 1) i)).length := by
  refine length_filter_add_le ?_ ?_ ?_ l
  · intro n hn
    obtain ⟨h1, h2⟩ := of_decide_eq_true hn
    exact decide_eq_true ⟨by omega, half_iff.2 (Or.inl h2)⟩
  · intro n hn
    obtain ⟨h1, h2⟩ := of_decide_eq_true hn
    exact decide_eq_true ⟨by omega, half_iff.2 (Or.inr h2)⟩
  · intro n hn
    obtain ⟨-, h2⟩ := of_decide_eq_true hn
    exact decide_eq_false fun h => by omega

/-- No network of the list that meets the block is larger than it. -/
def NoLarger (l : List (Net w)) (k i : Nat) : Prop := ∀ n ∈ l, ∀ y, n.Mem y → y / 2 ^ k = i → w ≤ n.prefixLen + k

/-- A list that covers a block and has no larger network has a network in the block. -/
theorem one_le_length_filter (h : InTree w k i) (heq : ∀ y, Covered l' y ↔ Covered l y) (hsmall : NoLarger l' k i)
    (hf : full l k i = true) : 1 ≤ (l'.filter (inBlock k i)).length := by
  have hi : i * 2 ^ k / 2 ^ k = i := Nat.mul_div_cancel _ (Nat.two_pow_pos _)
  obtain ⟨n, hn, hm⟩ := (heq _).2 ((full_iff h).1 hf _ hi)
  have hle := hsmall n hn _ hm hi
  have hs : Same w (w - k) n.addr (i * 2 ^ k) := (Net.mem_iff.1 hm).mono (by omega)
  have hk : w - (w - k) = k := Nat.sub_sub_self h.1
  simp only [Same, size, hk, hi] at hs
  exact List.length_pos_of_mem (List.mem_filter.2 ⟨hn, decide_eq_true ⟨hle, hs⟩⟩)

/-- A network that is larger than a half of a block and no larger than the block is the block, so in a block that is not covered
none is larger than a half. -/
theorem NoLarger.half {j : Nat} (h : InTree w (k + 1) i) (heq : ∀ y, Covered l' y ↔ Covered l y)
    (hsmall : NoLarger l' (k + 1) i) (hf : full l (k + 1) i ≠ true) (hj : j = 2 * i ∨ j = 2 * i + 1) : NoLarger l' k j := by
  intro n hn y hm hyj
  have hyi : y / 2 ^ (k + 1) = i := half_iff.2 (by omega)
  have hle := hsmall n hn y hm hyi
  refine Classical.byContradiction fun hlt => hf ((full_iff h).2 fun z hz => (heq z).1 ⟨n, hn, ?_⟩)
  have hp : n.prefixLen = w - (k + 1) := by omega
  have hk : w - (w - (k + 1)) = k + 1 := Nat.sub_sub_self h.1
  refine Net.mem_iff.2 ((Net.mem_iff.1 hm).trans ?_)
  simp only [Same, size, hp, hk, hyi, hz]

/-- No list with the same addresses has fewer networks in the block. -/
theorem minimal_coverIn (h : InTree w k i) (heq : ∀ y, Covered l' y ↔ Covered l y) (hsmall : NoLarger l' k i) :
    (coverIn l k i).length ≤ (l'.filter (inBlock k i)).length := by
  induction k generalizing i with
  | zero =>
    simp only [coverIn]
    split
    · rename_i hf
      exact one_le_length_filter h heq hsmall hf
    · simp
  | succ k ih =>
    obtain ⟨hl, hr⟩ := h.halves
    simp only [coverIn]
    split
    · rename_i hf
      exact one_le_length_filter h heq hsmall hf
    · rename_i hf
      split
      · have h1 := ih hl (hsmall.half h heq hf (Or.inl rfl))
        have h2 := ih hr (hsmall.half h heq hf (Or.inr rfl))
        have hlen := length_filter_halves l' k i
        rw [List.length_append]
        omega
      · simp

theorem inTree_root (w : Nat) : InTree w w 0 := ⟨Nat.le_refl w, Nat.two_pow_pos _⟩

/-- The sorted minimal cover. -/
def minimalCover (l : List (Net w)) : List (Net w) := coverIn l w 0

theorem isCover_minimalCover : IsCover (minimalCover (w := w)) where
  covers := by
    intro l y
    rw [minimalCover, covered_coverIn (inTree_root w)]
    refine ⟨fun h => h.2, fun h => ⟨?_, h⟩⟩
    obtain ⟨n, -, hm⟩ := h
    exact Nat.div_eq_of_lt (Nat.lt_of_le_of_lt hm.2 n.broadcast.isLt)
  sorted := fun l => sorted_coverIn (inTree_root w)
  minimal := by
    intro l l' heq
    refine Nat.le_trans (minimal_coverIn (inTree_root w) heq ?_) (List.length_filter_le _ _)
    intro n _ _ _ _
    omega

end Cidr
