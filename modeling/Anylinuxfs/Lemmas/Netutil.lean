import Anylinuxfs.Netutil

/-!
# The search of the picker

The search in terms of blocks of addresses. `coverLen` is the prefix length of the conflict that a candidate runs into, and the
next candidate is the next block of that size in the searched one, cyclically (`nextAddr`); `outer_round` says that this is what
the two loops of the picker compute. What one such round does to a search is `sweep_round`.
-/

namespace Anylinuxfs

open Cidr Loop

/-! ## Conflicts -/

/-- No used network overlaps the block `/prefixLen` of the address. -/
def FreeAt (used : List Ipv4Net) (prefixLen x : Nat) : Prop :=
  ∀ m ∈ used, ¬Same 32 (min prefixLen m.prefixLen) x m.addr

/-- The prefix length of the largest block among the block `/prefixLen` of the address and the used networks that contain it. -/
def coverLen (used : List Ipv4Net) (prefixLen x : Nat) : Nat :=
  used.foldr (fun m a => if m.prefixLen ≤ prefixLen ∧ Same 32 m.prefixLen m.addr x then min m.prefixLen a else a) prefixLen

section

variable {used : List Ipv4Net} {p x y z : Nat}

theorem coverLen_le (used : List Ipv4Net) (p x : Nat) : coverLen used p x ≤ p := by
  induction used with
  | nil => exact Nat.le_refl p
  | cons m used ih =>
    simp only [coverLen, List.foldr_cons] at ih ⊢
    split
    · exact Nat.le_trans (Nat.min_le_right _ _) ih
    · exact ih

theorem coverLen_le_of_mem {m : Ipv4Net} (hm : m ∈ used) (hle : m.prefixLen ≤ p) (hs : Same 32 m.prefixLen m.addr x) :
    coverLen used p x ≤ m.prefixLen := by
  induction used with
  | nil => cases hm
  | cons n used ih =>
    simp only [coverLen, List.foldr_cons] at ih ⊢
    rcases List.mem_cons.1 hm with rfl | hm
    · rw [if_pos ⟨hle, hs⟩]
      exact Nat.min_le_left _ _
    · split
      · exact Nat.le_trans (Nat.min_le_right _ _) (ih hm)
      · exact ih hm

/-- The largest block is the block itself or a used network that contains it. -/
theorem coverLen_cases (used : List Ipv4Net) (p x : Nat) : coverLen used p x = p ∨
    ∃ m ∈ used, m.prefixLen = coverLen used p x ∧ m.prefixLen ≤ p ∧ Same 32 m.prefixLen m.addr x := by
  induction used with
  | nil => exact Or.inl rfl
  | cons n used ih =>
    have hcons : coverLen (n :: used) p x =
        if n.prefixLen ≤ p ∧ Same 32 n.prefixLen n.addr x then min n.prefixLen (coverLen used p x)
        else coverLen used p x := rfl
    have hrest : coverLen (n :: used) p x = coverLen used p x → coverLen (n :: used) p x = p ∨
        ∃ m ∈ n :: used, m.prefixLen = coverLen (n :: used) p x ∧ m.prefixLen ≤ p ∧ Same 32 m.prefixLen m.addr x := by
      intro he
      rw [he]
      rcases ih with h | ⟨m, hm, h⟩
      · exact Or.inl h
      · exact Or.inr ⟨m, List.mem_cons_of_mem n hm, h⟩
    by_cases hn : n.prefixLen ≤ p ∧ Same 32 n.prefixLen n.addr x
    · rw [if_pos hn] at hcons
      rcases Nat.le_total n.prefixLen (coverLen used p x) with hle | hle
      · rw [Nat.min_eq_left hle] at hcons
        exact Or.inr ⟨n, List.mem_cons_self, hcons.symm, hn⟩
      · rw [Nat.min_eq_right hle] at hcons
        exact hrest hcons
    · rw [if_neg hn] at hcons
      exact hrest hcons

theorem freeAt_congr (h : Same 32 p x y) : FreeAt used p x ↔ FreeAt used p y := by
  have key : ∀ {a b}, Same 32 p a b → FreeAt used p a → FreeAt used p b := by
    intro a b hab hf m hm hs
    exact hf m hm ((hab.mono (Nat.min_le_left _ _)).trans hs)
  exact ⟨key h, key h.symm⟩

/-- Every block in the conflict of a block that is not free is not free. -/
theorem not_freeAt_of_same (hx : ¬FreeAt used p x) (hs : Same 32 (coverLen used p x) x y) : ¬FreeAt used p y := by
  rcases coverLen_cases used p x with h | ⟨m, hm, heq, hle, hmx⟩
  · rw [h] at hs
    rwa [← freeAt_congr hs]
  · intro hf
    refine hf m hm ?_
    rw [Nat.min_eq_right hle]
    rw [← heq] at hs
    exact (hmx.trans hs).symm

/-- The conflict of every block of a conflict is that conflict. -/
theorem coverLen_eq_of_same (hs : Same 32 (coverLen used p x) x y) : coverLen used p y = coverLen used p x := by
  refine Nat.le_antisymm ?_ ?_
  · rcases coverLen_cases used p x with h | ⟨m, hm, heq, hle, hmx⟩
    · rw [h]
      exact coverLen_le _ _ _
    · rw [← heq] at hs ⊢
      exact coverLen_le_of_mem hm hle (hmx.trans hs)
  · refine Nat.le_of_not_lt fun hlt => ?_
    rcases coverLen_cases used p y with h | ⟨m, hm, heq, hle, hmy⟩
    · have := coverLen_le used p x
      omega
    · have hmx : Same 32 m.prefixLen m.addr x := hmy.trans (hs.mono (by omega)).symm
      have := coverLen_le_of_mem hm hle hmx
      omega

/-- Conflicts are equal or disjoint: a block outside the conflict of `x` has a conflict that does not contain `x`. -/
theorem not_same_coverLen (hs : ¬Same 32 (coverLen used p x) x y) : ¬Same 32 (coverLen used p y) y x := by
  intro h
  exact hs (by rw [coverLen_eq_of_same h]; exact h.symm)

end

/-! ## The next candidate -/

/-- The start of the next block `/a` after that of `c` in the block `/q` of `c`, cyclically. -/
def nextAddr (q a c : Nat) : Nat :=
  if first 32 a c + size 32 a < first 32 q c + size 32 q then first 32 a c + size 32 a else first 32 q c

section

variable {q a c : Nat}

theorem nextAddr_same (hqa : q < a) : Same 32 q c (nextAddr q a c) := by
  have hpos := size_pos 32 q
  have hf := first_mono (w := 32) (x := c) (Nat.le_of_lt hqa)
  rw [same_iff]
  unfold nextAddr
  split
  · omega
  · omega

theorem nextAddr_aligned (hqa : q < a) : Aligned 32 a (nextAddr q a c) := by
  unfold nextAddr
  split
  · exact aligned_next (aligned_first 32 a c)
  · exact (aligned_first 32 q c).mono (Nat.le_of_lt hqa)

/-- The next block is another block. -/
theorem nextAddr_not_same (hqa : q < a) (ha : a ≤ 32) : ¬Same 32 a c (nextAddr q a c) := by
  have h2 := two_size_le (w := 32) hqa ha
  have hpos := size_pos 32 a
  rw [same_iff]
  unfold nextAddr
  split
  · omega
  · omega

theorem nextAddr_congr {c' : Nat} (hqa : q ≤ a) (h : Same 32 a c c') : nextAddr q a c = nextAddr q a c' := by
  unfold nextAddr
  rw [h.first_eq, (h.mono hqa).first_eq]

end

/-! ## A sweep

The search at one prefix `q`: the blocks of the block `/q` of the start address `x`, in order from the conflict of `x` on,
cyclically, until that conflict comes round again. -/

section

variable (used : List Ipv4Net) (p x : Nat)

/-- The first address of the conflict of the start. -/
def conflictStart : Nat := first 32 (coverLen used p x) x

/-- The sweep at prefix `q` that has come to `c` has passed the address `y`. -/
def Passed (c y : Nat) : Prop :=
  if conflictStart used p x ≤ c then conflictStart used p x ≤ y ∧ y < c else conflictStart used p x ≤ y ∨ y < c

/-- A sweep at prefix `q` that has come to the block at `c`: nothing it has passed is free, and it has not come round. -/
structure Sweep (q c : Nat) : Prop where
  small : q < coverLen used p x
  aligned : Aligned 32 p c
  inside : Same 32 q x c
  going : c ≠ conflictStart used p x
  passed : ∀ y, Aligned 32 p y → Same 32 q x y → Passed used p x c y → ¬FreeAt used p y

/-- What is left of a sweep. -/
def sweepLeft (q c : Nat) : Nat :=
  if conflictStart used p x ≤ c then (first 32 q x + size 32 q - c) + (conflictStart used p x - first 32 q x)
  else conflictStart used p x - c

/-- No block of the searched one is free. -/
def NoFree (q : Nat) : Prop := ∀ y, Aligned 32 p y → Same 32 q x y → ¬FreeAt used p y

end

section

variable {used : List Ipv4Net} {p x q c : Nat}

/-- The searched block is larger than every conflict in it. -/
theorem coverLen_gt (hq : q < coverLen used p x) (hc : Same 32 q x c) : q < coverLen used p c := by
  refine Nat.lt_of_not_le fun hle => ?_
  have hs : Same 32 (coverLen used p c) c x := (hc.mono hle).symm
  rw [coverLen_eq_of_same hs] at hq
  omega

/-- The sweep that begins behind the conflict of the start, at a block `/a` of which everything lies in a block that has no free
one. -/
theorem Sweep.start {a : Nat} (hp : p ≤ 32) (hq : q < coverLen used p x) (hqa : q < a) (hap : a ≤ p)
    (ht : Same 32 q x (conflictStart used p x)) (hal : Aligned 32 a (conflictStart used p x))
    (hno : ∀ y, Aligned 32 p y → Same 32 a (conflictStart used p x) y → ¬FreeAt used p y) :
    Sweep used p x q (nextAddr q a (conflictStart used p x)) := by
  have h2 := two_size_le (w := 32) hqa (Nat.le_trans hap hp)
  have hpos := size_pos 32 a
  have hfq : first 32 q (conflictStart used p x) = first 32 q x := ht.symm.first_eq
  have hle : first 32 q x ≤ conflictStart used p x := by
    rw [← hfq]
    exact first_le _ _ _
  refine ⟨hq, (nextAddr_aligned hqa).mono hap, ht.trans (nextAddr_same hqa), ?_, ?_⟩
  · intro he
    refine nextAddr_not_same (c := conflictStart used p x) hqa (Nat.le_trans hap hp) ?_
    rw [he]
    exact Same.refl _ _ _
  · intro y hy hs hpass
    refine hno y hy (same_iff.2 ?_)
    have hin := (same_iff (w := 32)).1 hs
    unfold Passed nextAddr at hpass
    rw [hal, hfq] at hpass
    rw [hal]
    split at hpass
    · split at hpass
      · omega
      · omega
    · split at hpass
      · omega
      · omega

/-- The conflict of a candidate outside the conflict of the start lies before that, or behind it. -/
theorem conflict_separate (hcu : ¬Same 32 (coverLen used p x) x c) :
    first 32 (coverLen used p c) c + size 32 (coverLen used p c) ≤ conflictStart used p x ∨
      conflictStart used p x + size 32 (coverLen used p x) ≤ first 32 (coverLen used p c) c := by
  refine separate (w := 32) ?_
  rcases Nat.le_total (coverLen used p c) (coverLen used p x) with hle | hle
  · rw [Nat.min_eq_left hle]
    exact not_same_coverLen hcu
  · rw [Nat.min_eq_right hle]
    exact fun hs => hcu hs.symm

/-- The next block of a candidate outside the conflict of the start, in terms of the searched block. -/
theorem nextAddr_eq (hc : Same 32 q x c) (a : Nat) : nextAddr q a c =
    if first 32 a c + size 32 a < first 32 q x + size 32 q then first 32 a c + size 32 a else first 32 q x := by
  rw [nextAddr, hc.symm.first_eq]

/-- A search comes back to the conflict of the start only at its first address. -/
theorem nextAddr_outside (hp : p ≤ 32) (hq : q < coverLen used p x) (hc : Same 32 q x c)
    (hs : Same 32 (coverLen used p x) x (nextAddr q (coverLen used p c) c)) :
    nextAddr q (coverLen used p c) c = conflictStart used p x := by
  by_cases hcu : Same 32 (coverLen used p x) x c
  · rw [coverLen_eq_of_same hcu] at hs
    exact absurd (hcu.symm.trans hs) (nextAddr_not_same hq (Nat.le_trans (coverLen_le _ _ _) hp))
  · have hsep := conflict_separate hcu
    have hnext := nextAddr_eq hc (coverLen used p c)
    have hbegin := first_mono (w := 32) (x := x) (Nat.le_of_lt hq)
    have hin : conflictStart used p x ≤ nextAddr q (coverLen used p c) c ∧
        nextAddr q (coverLen used p c) c < conflictStart used p x + size 32 (coverLen used p x) := (same_iff (w := 32)).1 hs
    have hpos := size_pos 32 (coverLen used p c)
    unfold conflictStart at *
    split at hnext <;> omega

/-- A round that begins in the conflict of the start skips the whole of it. -/
theorem sweep_round_inside (hp : p ≤ 32) (h : Sweep used p x q c) (hx : ¬FreeAt used p x)
    (hcu : Same 32 (coverLen used p x) x c) :
    Sweep used p x q (nextAddr q (coverLen used p c) c) ∧
      sweepLeft used p x q (nextAddr q (coverLen used p c) c) < sweepLeft used p x q c := by
  have ha : coverLen used p c = coverLen used p x := coverLen_eq_of_same hcu
  have hsx : Same 32 (coverLen used p x) x (conflictStart used p x) := same_first _ _ _
  have htc : Same 32 (coverLen used p x) c (conflictStart used p x) := hcu.symm.trans hsx
  have hstart : Sweep used p x q (nextAddr q (coverLen used p x) (conflictStart used p x)) :=
    Sweep.start hp h.small h.small (coverLen_le _ _ _) (hsx.mono (Nat.le_of_lt h.small)) (aligned_first _ _ _)
      fun y _ hs => not_freeAt_of_same hx (hsx.trans hs)
  rw [← nextAddr_congr (Nat.le_of_lt h.small) htc] at hstart
  rw [ha]
  refine ⟨hstart, ?_⟩
  have hbounds := (same_iff (w := 32)).1 hcu
  have hct : conflictStart used p x < c := Nat.lt_of_le_of_ne hbounds.1 (Ne.symm h.going)
  have hout : ¬(conflictStart used p x ≤ nextAddr q (coverLen used p x) c ∧
      nextAddr q (coverLen used p x) c < conflictStart used p x + size 32 (coverLen used p x)) := by
    intro hs
    exact nextAddr_not_same (c := c) h.small (Nat.le_trans (coverLen_le _ _ _) hp) (hcu.symm.trans (same_iff.2 hs))
  have hin := (same_iff (w := 32)).1 h.inside
  have hnin := (same_iff (w := 32)).1 hstart.inside
  unfold sweepLeft conflictStart at *
  rw [if_pos (Nat.le_of_lt hct)]
  split <;> omega

/-- A round that begins outside the conflict of the start comes round, and then nothing in the searched block is free, or goes
on with less left. -/
theorem sweep_round_outside (h : Sweep used p x q c) (hc : ¬FreeAt used p c) (hcu : ¬Same 32 (coverLen used p x) x c) :
    (nextAddr q (coverLen used p c) c = conflictStart used p x ∧ NoFree used p x q) ∨
    (Sweep used p x q (nextAddr q (coverLen used p c) c) ∧
      sweepLeft used p x q (nextAddr q (coverLen used p c) c) < sweepLeft used p x q c) := by
  have hqa := coverLen_gt h.small h.inside
  have hsep := conflict_separate hcu
  have hnext := nextAddr_eq h.inside (coverLen used p c)
  have hf := first_le 32 (coverLen used p c) c
  have hlt := lt_first_add_size 32 (coverLen used p c) c
  have hbegin := first_mono (w := 32) (x := c) (Nat.le_of_lt hqa)
  have hend := end_mono (w := 32) (x := c) (Nat.le_of_lt hqa)
  rw [h.inside.symm.first_eq] at hbegin hend
  have hin := (same_iff (w := 32)).1 h.inside
  have htin := (same_iff (w := 32)).1 ((same_first 32 (coverLen used p x) x).mono (Nat.le_of_lt h.small))
  have hgoing := h.going
  have hpos := size_pos 32 (coverLen used p x)
  -- what the round passes is what the sweep had passed and the conflict of the candidate
  have hpassed : ∀ y, Aligned 32 p y → Same 32 q x y → (Passed used p x c y ∨
      (first 32 (coverLen used p c) c ≤ y ∧ y < first 32 (coverLen used p c) c + size 32 (coverLen used p c))) →
      ¬FreeAt used p y := by
    rintro y hy hs (hps | hps)
    · exact h.passed y hy hs hps
    · exact not_freeAt_of_same hc (same_iff.2 hps)
  by_cases heq : nextAddr q (coverLen used p c) c = conflictStart used p x
  · refine Or.inl ⟨heq, fun y hy hs => hpassed y hy hs ?_⟩
    have hyin := (same_iff (w := 32)).1 hs
    rw [heq] at hnext
    unfold Passed conflictStart at *
    split at hnext <;> split <;> omega
  · refine Or.inr ⟨⟨h.small, (nextAddr_aligned hqa).mono (coverLen_le _ _ _), h.inside.trans (nextAddr_same hqa), heq, ?_⟩, ?_⟩
    · intro y hy hs hps
      refine hpassed y hy hs ?_
      have hyin := (same_iff (w := 32)).1 hs
      unfold Passed conflictStart at *
      split at hnext <;> split at hps <;> split <;> omega
    · unfold sweepLeft conflictStart at *
      split at hnext <;> split <;> split <;> omega

/-- One round of a sweep that meets a conflict: it comes round, and then nothing in the searched block is free, or it goes on
with less left. -/
theorem sweep_round (hp : p ≤ 32) (h : Sweep used p x q c) (hx : ¬FreeAt used p x) (hc : ¬FreeAt used p c) :
    (nextAddr q (coverLen used p c) c = conflictStart used p x ∧ NoFree used p x q) ∨
    (Sweep used p x q (nextAddr q (coverLen used p c) c) ∧
      sweepLeft used p x q (nextAddr q (coverLen used p c) c) < sweepLeft used p x q c) := by
  by_cases hcu : Same 32 (coverLen used p x) x c
  · exact Or.inr (sweep_round_inside hp h hx hcu)
  · exact sweep_round_outside h hc hcu

end

end Anylinuxfs
