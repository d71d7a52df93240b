import Anylinuxfs.Lemmas.Deferred

/-!
# The clean-up stack

The guarantees of a `Deferred` over a history (`DeferredLaw`) hold exactly as long as the identifiers, which are drawn from a
`usize`, have not come around.
-/

namespace Anylinuxfs

section

variable {ops : List DeferredOp}

/-- What a history and its drop call, up to the order of the drop. -/
theorem finish_perm (h : ops.count .add ≤ 2 ^ 64) :
    (Cleanup.finish ops).Perm ((Cleanup.run ops).ran ++ pendingAfter ops) := by
  rw [Cleanup.finish, (holds_pendingAfter h).runOrder]
  exact List.Perm.append_left _ (List.reverse_perm _)

/-- The identifier of an addition is its number. -/
theorem toNat_of_ids (h : ops.count .add ≤ 2 ^ 64) {n : Nat} {id : ActionId} (hid : (Cleanup.run ops).ids[n]? = some id) :
    id.toNat = n := by
  rw [(Cleanup.run_ids ops).1] at hid
  obtain ⟨hlt, heq⟩ := Counter.getElem?_drawn.1 hid
  exact ((Counter.ofNat_eq_iff (lt_of_lt_of_le hlt h)).1 heq.symm).symm

/-- The identifier of a pending addition. -/
theorem ids_of_mem_pendingAfter {n : Nat} (hn : n ∈ pendingAfter ops) :
    (Cleanup.run ops).ids[n]? = some (UInt64.ofNat n) := by
  rw [(Cleanup.run_ids ops).1]
  exact Counter.getElem?_drawn.2 ⟨(pendingAfter_sorted ops).2 n hn, rfl⟩

theorem count_prefix_le (h : ops.count .add ≤ 2 ^ 64) {pre post : List DeferredOp} (hops : ops = pre ++ post) :
    pre.count .add ≤ 2 ^ 64 := by
  rw [hops, List.count_append] at h
  omega

/-- The guarantees, until the counter has come around. -/
theorem deferredLaw_of_count (h : ops.count .add ≤ 2 ^ 64) : DeferredLaw ops where
  atMostOnce := (finish_perm h).nodup_iff.2 (accounted h).1
  added := fun n hn => (((accounted h).2 n).1 ((finish_perm h).mem_iff.1 hn)).1
  called_iff := by
    intro n hn
    rw [(finish_perm h).mem_iff, (accounted h).2 n]
    exact and_iff_right hn
  idsDistinct := by
    rw [(Cleanup.run_ids ops).1]
    exact Counter.nodup_drawn_iff.2 h
  callNow_pending := by
    intro pre id post n hops hpending hid
    have hpre := count_prefix_le h hops
    have hmem : id.toNat ∈ pendingAfter pre := by
      rw [toNat_of_ids hpre hid]
      exact (mem_pendingAfter hpre).2 hpending
    rw [(callNow_of_holds hpre (holds_pendingAfter hpre) id).2, if_pos hmem, toNat_of_ids hpre hid]
  callNow_unknown := by
    intro pre id post hops hnone
    have hpre := count_prefix_le h hops
    have hmem : id.toNat ∉ pendingAfter pre := by
      intro hmem
      have hid := ids_of_mem_pendingAfter hmem
      rw [UInt64.ofNat_toNat] at hid
      exact hnone id.toNat ((mem_pendingAfter hpre).1 hmem) hid
    rw [(callNow_of_holds hpre (holds_pendingAfter hpre) id).2, if_neg hmem, List.append_nil]
  quiet := by
    intro pre op post _ hop
    exact Cleanup.ran_snoc_of_quiet hop
  drop_reverse := by
    rw [(holds_pendingAfter h).runOrder, List.pairwise_reverse]
    exact (pendingAfter_sorted ops).1
  drop_pending := by
    intro n
    rw [(holds_pendingAfter h).runOrder, List.mem_reverse, mem_pendingAfter h]

end

/-- The guarantees of the clean-up stack hold of exactly the histories with no more additions than there are identifiers. -/
theorem deferredLaw_iff (ops : List DeferredOp) : DeferredLaw ops ↔ ops.count .add ≤ 2 ^ 64 := by
  constructor
  · intro h
    have hids := h.idsDistinct
    rw [(Cleanup.run_ids ops).1] at hids
    exact Counter.nodup_drawn_iff.1 hids
  · intro h
    exact deferredLaw_of_count h

/-- When the counter has come around, `add` returns the identifier of the first action again, however few actions are pending. -/
theorem deferredLaw_false : ¬DeferredLaw (List.replicate (2 ^ 64 + 1) [.add, .removeAll]).flatten := by
  intro h
  have hcount : ((List.replicate (2 ^ 64 + 1) [DeferredOp.add, .removeAll]).flatten).count .add = 2 ^ 64 + 1 := by
    rw [List.count_flatten, List.map_replicate, List.sum_replicate_nat]
    rfl
  have hids := h.idsDistinct
  rw [(Cleanup.run_ids _).1, hcount, Counter.nodup_drawn_iff] at hids
  exact Nat.not_succ_le_self _ hids

/-- The second action is called early, the first is removed, the last two run at the drop in reverse order; identifiers that are
unknown or used up do nothing. -/
example : Cleanup.finish [.add, .add, .callNow 1, .callNow 1, .add, .add, .remove 0, .remove 7] = [1, 3, 2] := rfl

end Anylinuxfs
