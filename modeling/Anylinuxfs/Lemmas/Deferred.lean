import Anylinuxfs.Deferred
import Anylinuxfs.Lib.Counter
import Mathlib.Data.List.Perm.Basic

/-!
# Histories of a clean-up stack

The vector of a `Deferred` against the list of the numbers of the pending additions (`pendingAfter`), which says nothing of
identifiers or positions: one lemma for each operation, then the run. The numbers and what was called determine what was removed.
-/

namespace Anylinuxfs

/-! ## One stack -/

/-- A drop calls the last action first. -/
theorem Deferred.runOrder_of_dropNext {α : Type} {d d' : Deferred α} {action : α} (h : d.dropNext = some (action, d')) :
    d.runOrder = action :: d'.runOrder := by
  unfold dropNext at h
  split at h
  · next e he =>
    cases h
    obtain ⟨l, hl⟩ := List.getLast?_eq_some_iff.1 he
    simp [runOrder, hl]
  · cases h

/-- The stack holds exactly the actions of the pending additions, in the order of their addition. -/
def Deferred.Holds (d : Deferred Nat) (pending : List Nat) : Prop :=
  d.actions = pending.map fun n => (UInt64.ofNat n, n)

/-- The entry of an addition. -/
theorem find?_entries {pending : List Nat} (hlt : ∀ n ∈ pending, n < 2 ^ 64) {id : ActionId} (hmem : id.toNat ∈ pending) :
    (pending.map fun n => (UInt64.ofNat n, n)).find? (fun e => e.1 = id) = some (id, id.toNat) := by
  induction pending with
  | nil => cases hmem
  | cons m pending ih =>
    have hkey : UInt64.ofNat m = id ↔ m = id.toNat := Counter.ofNat_eq_iff (hlt m List.mem_cons_self)
    by_cases hm : UInt64.ofNat m = id
    · rw [List.map_cons, List.find?_cons_of_pos (by simpa using hm), hm, ← hkey.1 hm]
    · rw [List.map_cons, List.find?_cons_of_neg (by simpa using hm)]
      refine ih (fun n hn => hlt n (List.mem_cons_of_mem m hn)) ((List.mem_cons.1 hmem).resolve_left ?_)
      intro heq
      exact hm (hkey.2 heq.symm)

/-- Taking out the entry of an identifier takes out its number. -/
theorem eraseP_entries {pending : List Nat} (hlt : ∀ n ∈ pending, n < 2 ^ 64) (id : ActionId) :
    (pending.map fun n => (UInt64.ofNat n, n)).eraseP (fun e => e.1 = id) =
      (pending.erase id.toNat).map fun n => (UInt64.ofNat n, n) := by
  induction pending with
  | nil => rfl
  | cons m pending ih =>
    have hkey : UInt64.ofNat m = id ↔ m = id.toNat := Counter.ofNat_eq_iff (hlt m List.mem_cons_self)
    by_cases hm : UInt64.ofNat m = id
    · rw [List.map_cons, List.eraseP_cons_of_pos (by simpa using hm), ← hkey.1 hm, List.erase_cons_head]
    · rw [List.map_cons, List.eraseP_cons_of_neg (by simpa using hm), ih fun n hn => hlt n (List.mem_cons_of_mem m hn),
        List.erase_cons_tail (by simpa using fun heq => hm (hkey.2 heq)), List.map_cons]

namespace Deferred.Holds

variable {d : Deferred Nat} {pending : List Nat}

theorem runOrder (h : d.Holds pending) : d.runOrder = pending.reverse := by
  rw [Deferred.runOrder, h, List.map_map]
  simp [Function.comp_def]

theorem add (h : d.Holds pending) {n : Nat} (hid : d.lastId = UInt64.ofNat n) : (d.add n).2.Holds (pending ++ [n]) := by
  simp only [Holds, Deferred.add, hid, List.map_append, List.map_cons, List.map_nil]
  rw [h]

/-- As long as the counter has not come around, an identifier finds the addition of its number. -/
theorem popAction_of_mem (h : d.Holds pending) (hlt : ∀ n ∈ pending, n < 2 ^ 64) {id : ActionId} (hmem : id.toNat ∈ pending) :
    ∃ d', d.popAction id = some (id.toNat, d') ∧ d'.Holds (pending.erase id.toNat) ∧ d'.lastId = d.lastId := by
  have hfind : d.actions.find? (fun e => e.1 = id) = some (id, id.toNat) := by
    rw [h]
    exact find?_entries hlt hmem
  refine ⟨{ d with actions := d.actions.eraseP (fun e => e.1 = id) }, by rw [Deferred.popAction, hfind], ?_, rfl⟩
  rw [Holds, h]
  exact eraseP_entries hlt id

theorem popAction_of_notMem (h : d.Holds pending) (hlt : ∀ n ∈ pending, n < 2 ^ 64) {id : ActionId}
    (hmem : id.toNat ∉ pending) : d.popAction id = none := by
  have hfind : d.actions.find? (fun e => e.1 = id) = none := by
    rw [h, List.find?_eq_none]
    rintro _ he heq
    obtain ⟨n, hn, rfl⟩ := List.mem_map.1 he
    exact hmem ((Counter.ofNat_eq_iff (hlt n hn)).1 (of_decide_eq_true heq) ▸ hn)
  rw [Deferred.popAction, hfind]

end Deferred.Holds

/-! ## Histories -/

/-- The numbers of the pending additions, in the order of addition: an identifier stands for its number. -/
def pendingStep (count : Nat) (pending : List Nat) : DeferredOp → List Nat
  | .add => pending ++ [count]
  | .callNow id | .remove id => pending.erase id.toNat
  | .removeAll => []

/-- The numbers of the additions that are pending after a history. -/
def pendingAfter (ops : List DeferredOp) : List Nat :=
  (ops.foldl (fun s op => (s.1 + if op = .add then 1 else 0, pendingStep s.1 s.2 op)) (0, [])).2

theorem pendingAfter_snoc (ops : List DeferredOp) (op : DeferredOp) :
    pendingAfter (ops ++ [op]) = pendingStep (ops.count .add) (pendingAfter ops) op := by
  have hcount : ∀ ops : List DeferredOp,
      (ops.foldl (fun s op => (s.1 + if op = .add then 1 else 0, pendingStep s.1 s.2 op)) (0, [])).1 = ops.count .add := by
    intro ops
    induction ops using List.reverseRecOn with
    | nil => rfl
    | append_singleton ops op ih =>
      rw [List.foldl_append, List.count_append, ← ih]
      cases op <;> rfl
  rw [pendingAfter, List.foldl_append, ← hcount ops]
  rfl

theorem Cleanup.run_snoc (ops : List DeferredOp) (op : DeferredOp) :
    Cleanup.run (ops ++ [op]) = (Cleanup.run ops).step op := by
  rw [Cleanup.run, List.foldl_append]
  rfl

theorem count_snoc_add (ops : List DeferredOp) : (ops ++ [DeferredOp.add]).count .add = ops.count .add + 1 := by
  simp

theorem count_snoc_of_ne {op : DeferredOp} (ops : List DeferredOp) (h : op ≠ .add) :
    (ops ++ [op]).count .add = ops.count .add := by
  rw [List.count_append, List.count_singleton, if_neg (by simpa using h), Nat.add_zero]

/-- The pending additions are distinct, in order, and were made. -/
theorem pendingAfter_sorted (ops : List DeferredOp) :
    (pendingAfter ops).Pairwise (· < ·) ∧ ∀ n ∈ pendingAfter ops, n < ops.count .add := by
  induction ops using List.reverseRecOn with
  | nil => exact ⟨List.Pairwise.nil, nofun⟩
  | append_singleton ops op ih =>
    rw [pendingAfter_snoc]
    have herase : ∀ id : ActionId, op ≠ .add → ((pendingAfter ops).erase id.toNat).Pairwise (· < ·) ∧
        ∀ n ∈ (pendingAfter ops).erase id.toNat, n < (ops ++ [op]).count .add := by
      intro id hop
      rw [count_snoc_of_ne ops hop]
      exact ⟨ih.1.sublist List.erase_sublist, fun n hn => ih.2 n (List.mem_of_mem_erase hn)⟩
    cases op with
    | add =>
      rw [count_snoc_add, pendingStep, List.pairwise_append]
      refine ⟨⟨ih.1, List.pairwise_singleton _ _, ?_⟩, ?_⟩
      · intro m hm n hn
        rw [List.mem_singleton.1 hn]
        exact ih.2 m hm
      · intro n hn
        rcases List.mem_append.1 hn with hn | hn
        · exact Nat.lt_succ_of_lt (ih.2 n hn)
        · rw [List.mem_singleton.1 hn]
          exact Nat.lt_succ_self _
    | callNow id => exact herase id nofun
    | remove id => exact herase id nofun
    | removeAll => exact ⟨List.Pairwise.nil, nofun⟩

theorem pendingAfter_nodup (ops : List DeferredOp) : (pendingAfter ops).Nodup :=
  (pendingAfter_sorted ops).1.imp fun h => Nat.ne_of_lt h

/-- The identifiers that `add` has returned are the draws of the counter. -/
theorem Cleanup.run_ids (ops : List DeferredOp) :
    (Cleanup.run ops).ids = Counter.drawn (ops.count .add) ∧
      (Cleanup.run ops).deferred.lastId = UInt64.ofNat (ops.count .add) := by
  induction ops using List.reverseRecOn with
  | nil => exact ⟨rfl, rfl⟩
  | append_singleton ops op ih =>
    rw [Cleanup.run_snoc]
    cases op with
    | add =>
      rw [count_snoc_add, Counter.drawn_succ, ← Counter.ofNat_succ, ← ih.1, ← ih.2]
      exact ⟨rfl, rfl⟩
    | callNow id =>
      have hne : DeferredOp.callNow id ≠ .add := nofun
      rw [count_snoc_of_ne ops hne, ← ih.1, ← ih.2]
      simp only [Cleanup.step, Deferred.callNow, Deferred.popAction]
      cases (Cleanup.run ops).deferred.actions.find? (fun e => e.1 = id) <;> exact ⟨rfl, rfl⟩
    | remove id =>
      have hne : DeferredOp.remove id ≠ .add := nofun
      rw [count_snoc_of_ne ops hne, ← ih.1, ← ih.2]
      simp only [Cleanup.step, Deferred.remove, Deferred.popAction]
      cases (Cleanup.run ops).deferred.actions.find? (fun e => e.1 = id) <;> exact ⟨trivial, rfl⟩
    | removeAll =>
      have hne : DeferredOp.removeAll ≠ .add := nofun
      rw [count_snoc_of_ne ops hne, ← ih.1, ← ih.2]
      exact ⟨rfl, rfl⟩

/-! ## The vector -/

section

variable {ops : List DeferredOp}

theorem count_le_snoc (ops : List DeferredOp) (op : DeferredOp) : ops.count .add ≤ (ops ++ [op]).count .add := by
  rw [List.count_append]
  exact Nat.le_add_right _ _

theorem pendingAfter_lt (h : ops.count .add ≤ 2 ^ 64) : ∀ n ∈ pendingAfter ops, n < 2 ^ 64 :=
  fun n hn => lt_of_lt_of_le ((pendingAfter_sorted ops).2 n hn) h

/-- `call_now` of the identifier of a pending addition, and of any other. -/
theorem callNow_of_holds (h : ops.count .add ≤ 2 ^ 64) (hd : (Cleanup.run ops).deferred.Holds (pendingAfter ops)) (id : ActionId) :
    let c := Cleanup.run (ops ++ [.callNow id])
    c.deferred.Holds ((pendingAfter ops).erase id.toNat) ∧
      c.ran = (Cleanup.run ops).ran ++ if id.toNat ∈ pendingAfter ops then [id.toNat] else [] := by
  rw [Cleanup.run_snoc]
  by_cases hmem : id.toNat ∈ pendingAfter ops
  · obtain ⟨d', hpop, hd', -⟩ := hd.popAction_of_mem (pendingAfter_lt h) hmem
    rw [if_pos hmem]
    simp only [Cleanup.step, Deferred.callNow, hpop]
    exact ⟨hd', trivial⟩
  · rw [if_neg hmem, List.erase_of_not_mem hmem, List.append_nil]
    simp only [Cleanup.step, Deferred.callNow, hd.popAction_of_notMem (pendingAfter_lt h) hmem]
    exact ⟨hd, trivial⟩

theorem remove_of_holds (h : ops.count .add ≤ 2 ^ 64) (hd : (Cleanup.run ops).deferred.Holds (pendingAfter ops)) (id : ActionId) :
    (Cleanup.run (ops ++ [.remove id])).deferred.Holds ((pendingAfter ops).erase id.toNat) := by
  rw [Cleanup.run_snoc]
  by_cases hmem : id.toNat ∈ pendingAfter ops
  · obtain ⟨d', hpop, hd', -⟩ := hd.popAction_of_mem (pendingAfter_lt h) hmem
    simp only [Cleanup.step, Deferred.remove, hpop]
    exact hd'
  · rw [List.erase_of_not_mem hmem]
    simp only [Cleanup.step, Deferred.remove, hd.popAction_of_notMem (pendingAfter_lt h) hmem]
    exact hd

/-- Until the counter has come around, the vector holds the pending additions. -/
theorem holds_pendingAfter (h : ops.count .add ≤ 2 ^ 64) : (Cleanup.run ops).deferred.Holds (pendingAfter ops) := by
  induction ops using List.reverseRecOn with
  | nil => rfl
  | append_singleton ops op ih =>
    have hle := (count_le_snoc ops op).trans h
    have hd := ih hle
    rw [pendingAfter_snoc]
    cases op with
    | add =>
      rw [Cleanup.run_snoc, pendingStep]
      have hlen : (Cleanup.run ops).ids.length = ops.count .add := by
        rw [(Cleanup.run_ids ops).1, Counter.length_drawn]
      have hadd := hd.add (Cleanup.run_ids ops).2
      rw [← hlen] at hadd ⊢
      exact hadd
    | callNow id => exact (callNow_of_holds hle hd id).1
    | remove id => exact remove_of_holds hle hd id
    | removeAll =>
      rw [Cleanup.run_snoc]
      rfl

/-! ## What is pending and what was removed -/

theorem deferredPending_iff {n : Nat} :
    DeferredPending ops n ↔
      ∃ pre post, ops = pre ++ .add :: post ∧ pre.count .add = n ∧ ∀ op ∈ post, op.takes (UInt64.ofNat n) = false := by
  rw [DeferredPending, (Cleanup.run_ids ops).1]
  constructor
  · rintro ⟨id, pre, post, hid, hops, hn, htakes⟩
    rw [(Counter.getElem?_drawn.1 hid).2] at htakes
    exact ⟨pre, post, hops, hn, htakes⟩
  · rintro ⟨pre, post, rfl, rfl, htakes⟩
    refine ⟨_, pre, post, Counter.getElem?_drawn.2 ⟨?_, rfl⟩, rfl, rfl, htakes⟩
    rw [List.count_append, List.count_cons_self]
    omega

theorem deferredPending_snoc {op : DeferredOp} {n : Nat} :
    DeferredPending (ops ++ [op]) n ↔
      (op = .add ∧ ops.count .add = n) ∨ (DeferredPending ops n ∧ op.takes (UInt64.ofNat n) = false) := by
  simp only [deferredPending_iff]
  constructor
  · rintro ⟨pre, post, hops, hn, htakes⟩
    rcases List.eq_nil_or_concat post with rfl | ⟨post, last, rfl⟩
    · obtain ⟨rfl, hop⟩ := List.append_inj' hops rfl
      cases hop
      exact .inl ⟨rfl, hn⟩
    · rw [List.concat_eq_append] at hops htakes
      rw [← List.cons_append, ← List.append_assoc] at hops
      obtain ⟨rfl, hop⟩ := List.append_inj' hops rfl
      cases hop
      refine .inr ⟨⟨pre, post, rfl, hn, ?_⟩, htakes _ (by simp)⟩
      intro o ho
      exact htakes o (List.mem_append_left _ ho)
  · rintro (⟨rfl, hn⟩ | ⟨⟨pre, post, rfl, hn, htakes⟩, hop⟩)
    · exact ⟨ops, [], rfl, hn, nofun⟩
    · refine ⟨pre, post ++ [op], by simp, hn, ?_⟩
      intro o ho
      rcases List.mem_append.1 ho with ho | ho
      · exact htakes o ho
      · rw [List.mem_singleton.1 ho]
        exact hop

/-- The list of the pending additions is what the histories say. -/
theorem mem_pendingAfter (h : ops.count .add ≤ 2 ^ 64) {n : Nat} : n ∈ pendingAfter ops ↔ DeferredPending ops n := by
  induction ops using List.reverseRecOn with
  | nil =>
    rw [deferredPending_iff]
    constructor
    · nofun
    · rintro ⟨pre, post, hops, -⟩
      exact absurd hops (by simp)
  | append_singleton ops op ih =>
    have hle := (count_le_snoc ops op).trans h
    rw [deferredPending_snoc, pendingAfter_snoc, ← ih hle]
    have herase : ∀ id : ActionId, n ∈ (pendingAfter ops).erase id.toNat ↔
        n ∈ pendingAfter ops ∧ decide (id = UInt64.ofNat n) = false := by
      intro id
      rw [(pendingAfter_nodup ops).mem_erase_iff, and_comm, decide_eq_false_iff_not]
      refine and_congr_right fun hn => not_congr ?_
      rw [eq_comm (a := id), Counter.ofNat_eq_iff (pendingAfter_lt hle n hn)]
    cases op with
    | add =>
      simp only [pendingStep, List.mem_append, List.mem_singleton, DeferredOp.takes, true_and, and_true]
      rw [or_comm, eq_comm]
    | callNow id => simpa [pendingStep, DeferredOp.takes] using herase id
    | remove id => simpa [pendingStep, DeferredOp.takes] using herase id
    | removeAll => simp [pendingStep, DeferredOp.takes]

theorem deferredRemoved_iff {n : Nat} :
    DeferredRemoved ops n ↔
      ∃ pre op post, ops = pre ++ op :: post ∧ DeferredPending pre n ∧ op.discards (UInt64.ofNat n) = true := by
  rw [DeferredRemoved, (Cleanup.run_ids ops).1]
  constructor
  · rintro ⟨id, pre, op, post, hid, hops, hpending, hdiscards⟩
    rw [(Counter.getElem?_drawn.1 hid).2] at hdiscards
    exact ⟨pre, op, post, hops, hpending, hdiscards⟩
  · rintro ⟨pre, op, post, rfl, hpending, hdiscards⟩
    refine ⟨_, pre, op, post, Counter.getElem?_drawn.2 ⟨?_, rfl⟩, rfl, hpending, hdiscards⟩
    obtain ⟨before, after, rfl, rfl, -⟩ := deferredPending_iff.1 hpending
    simp only [List.count_append, List.count_cons_self]
    omega

theorem deferredRemoved_snoc {op : DeferredOp} {n : Nat} :
    DeferredRemoved (ops ++ [op]) n ↔
      DeferredRemoved ops n ∨ (DeferredPending ops n ∧ op.discards (UInt64.ofNat n) = true) := by
  simp only [deferredRemoved_iff]
  constructor
  · rintro ⟨pre, o, post, hops, hpending, hdiscards⟩
    rcases List.eq_nil_or_concat post with rfl | ⟨post, last, rfl⟩
    · obtain ⟨rfl, hop⟩ := List.append_inj' hops rfl
      cases hop
      exact .inr ⟨hpending, hdiscards⟩
    · rw [List.concat_eq_append, ← List.cons_append, ← List.append_assoc] at hops
      obtain ⟨rfl, -⟩ := List.append_inj' hops rfl
      exact .inl ⟨pre, o, post, rfl, hpending, hdiscards⟩
  · rintro (⟨pre, o, post, rfl, hpending, hdiscards⟩ | ⟨hpending, hdiscards⟩)
    · exact ⟨pre, o, post ++ [op], by simp, hpending, hdiscards⟩
    · exact ⟨ops, op, [], rfl, hpending, hdiscards⟩

theorem deferredRemoved_snoc_of_discards {op : DeferredOp} {n : Nat} (h : op.discards (UInt64.ofNat n) = false) :
    DeferredRemoved (ops ++ [op]) n ↔ DeferredRemoved ops n := by
  rw [deferredRemoved_snoc, h]
  exact or_iff_left fun hr => nomatch hr.2

/-- What was removed was added. -/
theorem DeferredRemoved.lt_count {n : Nat} (h : DeferredRemoved ops n) : n < ops.count .add := by
  obtain ⟨pre, op, post, rfl, hpending, -⟩ := deferredRemoved_iff.1 h
  obtain ⟨before, after, rfl, rfl, -⟩ := deferredPending_iff.1 hpending
  simp only [List.count_append, List.count_cons_self]
  omega

/-! ## What was called -/

/-- Only `call_now` calls an action. -/
theorem Cleanup.ran_snoc_of_quiet {op : DeferredOp} (hop : ∀ id, op ≠ .callNow id) :
    (Cleanup.run (ops ++ [op])).ran = (Cleanup.run ops).ran := by
  rw [Cleanup.run_snoc]
  cases op with
  | callNow id => exact absurd rfl (hop id)
  | add | remove id | removeAll => rfl

/-- The called and the pending additions are distinct, and they are the additions that were not removed. -/
def Accounted (ops : List DeferredOp) : Prop :=
  ((Cleanup.run ops).ran ++ pendingAfter ops).Nodup ∧
    ∀ n, n ∈ (Cleanup.run ops).ran ++ pendingAfter ops ↔ n < ops.count .add ∧ ¬DeferredRemoved ops n

theorem Accounted.add (h : Accounted ops) : Accounted (ops ++ [.add]) := by
  have hran : (Cleanup.run (ops ++ [.add])).ran = (Cleanup.run ops).ran := Cleanup.ran_snoc_of_quiet nofun
  have hnew : ops.count .add ∉ (Cleanup.run ops).ran ++ pendingAfter ops := fun hmem =>
    Nat.lt_irrefl _ ((h.2 _).1 hmem).1
  rw [Accounted, hran, pendingAfter_snoc, pendingStep, ← List.append_assoc, count_snoc_add]
  constructor
  · rw [← List.concat_eq_append]
    exact h.1.concat hnew
  · intro n
    have hremoved : DeferredRemoved (ops ++ [.add]) n ↔ DeferredRemoved ops n := deferredRemoved_snoc_of_discards rfl
    rw [List.mem_append, List.mem_singleton, h.2 n, hremoved, Nat.lt_succ_iff_lt_or_eq]
    constructor
    · rintro (⟨hlt, hnot⟩ | rfl)
      · exact ⟨.inl hlt, hnot⟩
      · exact ⟨.inr rfl, fun hr => Nat.lt_irrefl _ hr.lt_count⟩
    · rintro ⟨hlt | rfl, hnot⟩
      · exact .inl ⟨hlt, hnot⟩
      · exact .inr rfl

theorem Accounted.callNow (h : Accounted ops) (hle : ops.count .add ≤ 2 ^ 64) (id : ActionId) :
    Accounted (ops ++ [.callNow id]) := by
  have hran := (callNow_of_holds hle (holds_pendingAfter hle) id).2
  have hne : DeferredOp.callNow id ≠ .add := nofun
  -- the action goes from the pending ones to the called ones
  have hperm : ((Cleanup.run (ops ++ [.callNow id])).ran ++ pendingAfter (ops ++ [.callNow id])).Perm
      ((Cleanup.run ops).ran ++ pendingAfter ops) := by
    rw [hran, pendingAfter_snoc, pendingStep, List.append_assoc]
    refine List.Perm.append_left _ ?_
    split
    · next hmem => exact (List.perm_cons_erase hmem).symm
    · next hmem => rw [List.erase_of_not_mem hmem, List.nil_append]
  refine ⟨hperm.nodup_iff.2 h.1, fun n => ?_⟩
  rw [hperm.mem_iff, h.2 n, count_snoc_of_ne ops hne, deferredRemoved_snoc_of_discards rfl]

/-- An operation that takes actions out without calling them. -/
theorem Accounted.discard (h : Accounted ops) {op : DeferredOp} (hle : (ops ++ [op]).count .add ≤ 2 ^ 64) (hadd : op ≠ .add)
    (hcall : ∀ id, op ≠ .callNow id) : Accounted (ops ++ [op]) := by
  have hops := (count_le_snoc ops op).trans hle
  have hmem : ∀ n, n ∈ pendingAfter (ops ++ [op]) ↔ n ∈ pendingAfter ops ∧ op.discards (UInt64.ofNat n) = false := by
    intro n
    rw [mem_pendingAfter hle, deferredPending_snoc, mem_pendingAfter hops]
    cases op with
    | add => exact absurd rfl hadd
    | callNow id => exact absurd rfl (hcall id)
    | remove id | removeAll => exact or_iff_right fun hadd => nomatch hadd.1
  obtain ⟨hnodup, hiff⟩ := h
  rw [List.nodup_append] at hnodup
  rw [Accounted, Cleanup.ran_snoc_of_quiet hcall, count_snoc_of_ne ops hadd]
  constructor
  · rw [List.nodup_append]
    refine ⟨hnodup.1, pendingAfter_nodup _, ?_⟩
    intro a ha b hb
    exact hnodup.2.2 a ha b ((hmem b).1 hb).1
  · intro n
    rw [List.mem_append, hmem, deferredRemoved_snoc, ← mem_pendingAfter hops, not_or, ← and_assoc, ← hiff, List.mem_append]
    have hdisjoint : n ∈ (Cleanup.run ops).ran → n ∉ pendingAfter ops := fun ha hb => hnodup.2.2 n ha n hb rfl
    cases op.discards (UInt64.ofNat n)
    · simp only [and_true, Bool.false_eq_true, and_false, not_false_eq_true]
    · simp only [Bool.true_eq_false, and_false, or_false, and_true]
      tauto

/-- Until the counter has come around, every addition is accounted for. -/
theorem accounted (h : ops.count .add ≤ 2 ^ 64) : Accounted ops := by
  induction ops using List.reverseRecOn with
  | nil =>
    refine ⟨List.nodup_nil, fun n => ?_⟩
    constructor
    · nofun
    · rintro ⟨hlt, -⟩
      cases hlt
  | append_singleton ops op ih =>
    have hle := (count_le_snoc ops op).trans h
    cases op with
    | add => exact (ih hle).add
    | callNow id => exact (ih hle).callNow hle id
    | remove id => exact (ih hle).discard h nofun nofun
    | removeAll => exact (ih hle).discard h nofun nofun

end

end Anylinuxfs
