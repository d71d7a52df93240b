import Anylinuxfs.Privilege

/-!
# Dropping and regaining privileges

On macOS the drop leaves no trace of root, so nothing undoes it; on Linux every way through the functions of `privilege.rs`
leaves the way back to root open, and `ElevateOnDrop` takes it. In between, the process acts as the invoker.
-/

namespace Anylinuxfs

open Posix (Creds Ids)
open Posix.Creds (SetCall Recoverable Sealed)

/-! ## Single calls -/

@[simp] theorem setId_run (call : Creds → Option Creds) (text : String) (c : Creds) :
    (setId call text).run.run c = (call c).elim (.error text.toList, c) (fun c' => (.ok (), c')) := by
  change setId call text c = _
  unfold setId
  cases call c <;> rfl

/-- Two calls in a row, the second of which is made only after the first one has succeeded. -/
theorem setId_bind_run (call call' : Creds → Option Creds) (text text' : String) (c : Creds) :
    (do setId call text; setId call' text' : PrivM Unit).run.run c =
      (call c).elim (.error text.toList, c) (fun c' => (call' c').elim (.error text'.toList, c') (fun c'' => (.ok (), c''))) := by
  rw [ExceptT.run_bind, StateT.run_bind, setId_run]
  cases call c with
  | none => rfl
  | some c' => exact setId_run call' text' c'

/-- What a checked call leaves is what an unchecked one leaves. -/
theorem setId_bind_snd (call call' : Creds → Option Creds) (text text' : String) (c : Creds) :
    ((do setId call text; setId call' text' : PrivM Unit).run.run c).2 =
      match call c with
      | some c' => tryId call' c'
      | none => c := by
  rw [setId_bind_run]
  cases call c with
  | none => rfl
  | some c' =>
    change ((call' c').elim _ _ : Except (List Char) Unit × Creds).2 = (call' c').getD c'
    cases call' c' <;> rfl

/-! ## What no function changes -/

section

variable {P : Creds → Prop} (huid : ∀ c id, P c → P (tryId (Creds.seteuid id) c))
  (hgid : ∀ c id, P c → P (tryId (Creds.setegid id) c))

/-- What two calls keep, they keep one after the other. -/
theorem kept_setId_bind {c : Creds} (h : P c) {call call' : Creds → Option Creds} (text text' : String)
    (hc : ∀ c, P c → P (tryId call c)) (hc' : ∀ c, P c → P (tryId call' c)) :
    P ((do setId call text; setId call' text' : PrivM Unit).run.run c).2 := by
  rw [setId_bind_snd]
  cases hcall : call c with
  | none => exact h
  | some c' =>
    have hkept := hc c h
    rw [tryId, hcall] at hkept
    exact hc' c' hkept

include huid hgid

theorem kept_dropEffectivePrivileges {c : Creds} (h : P c) (sudoUid sudoGid : Option Nat) :
    P ((dropEffectivePrivileges sudoUid sudoGid).run.run c).2 := by
  unfold dropEffectivePrivileges
  split
  · exact kept_setId_bind h _ _ (fun c => hgid c _) (fun c => huid c _)
  · exact h

theorem kept_elevateEffectivePrivileges {c : Creds} (h : P c) : P (elevateEffectivePrivileges.run.run c).2 := by
  change P ((do setId (Creds.seteuid c.uid.real) _; setId (Creds.setegid c.gid.real) _ : PrivM Unit).run.run c).2
  exact kept_setId_bind h _ _ (fun c => huid c _) (fun c => hgid c _)

theorem kept_acquire {c : Creds} (h : P c) : P (EffectiveRootGuard.acquire c).2 := by
  unfold EffectiveRootGuard.acquire
  split
  · exact hgid _ 0 (huid c 0 h)
  · exact h

theorem kept_dropGuard {c : Creds} (h : P c) (guard : EffectiveRootGuard) : P (guard.drop c) := by
  obtain ⟨prevUid, prevGid⟩ := guard
  have hprev : P (prevGid.elim c fun gid => tryId (Creds.setegid gid) c) := by
    cases prevGid with
    | none => exact h
    | some gid => exact hgid c gid h
  cases prevUid with
  | none => exact hprev
  | some uid => exact huid _ uid hprev

theorem kept_elevateOnDrop {c : Creds} (h : P c) : P (elevateOnDrop c) := by
  unfold elevateOnDrop
  split
  · exact hgid _ 0 (huid c 0 h)
  · exact h

/-- On Linux the functions of `privilege.rs` keep what seteuid(2) and setegid(2) keep. -/
theorem kept_after {c : Creds} (h : P c) (config : PrivilegeConfig) (call : PrivCall) : P (call.after .linux config c) := by
  cases call with
  | dropPrivileges => exact kept_dropEffectivePrivileges huid hgid h _ _
  | dropEffectivePrivileges => exact kept_dropEffectivePrivileges huid hgid h _ _
  | elevateEffectivePrivileges => exact kept_elevateEffectivePrivileges huid hgid h
  | acquireGuard => exact kept_acquire huid hgid h
  | dropGuard guard => exact kept_dropGuard huid hgid h guard
  | elevateOnDrop => exact kept_elevateOnDrop huid hgid h

end

theorem recoverable_tryId_seteuid (c : Creds) (id : Nat) (h : c.Recoverable) : (tryId (Creds.seteuid id) c).Recoverable :=
  (h.after rfl : (c.after (.seteuid id)).Recoverable)

theorem recoverable_tryId_setegid (c : Creds) (id : Nat) (h : c.Recoverable) : (tryId (Creds.setegid id) c).Recoverable :=
  (h.after rfl : (c.after (.setegid id)).Recoverable)

/-- On Linux no function of `privilege.rs` closes the way back to root. -/
theorem recoverable_after {c : Creds} (h : c.Recoverable) (config : PrivilegeConfig) (call : PrivCall) :
    (call.after .linux config c).Recoverable :=
  kept_after recoverable_tryId_seteuid recoverable_tryId_setegid h config call

/-- On Linux no function of `privilege.rs` changes the real user. -/
theorem uid_real_after (c : Creds) (config : PrivilegeConfig) (call : PrivCall) :
    (call.after .linux config c).uid.real = c.uid.real := by
  refine kept_after (P := fun c' => c'.uid.real = c.uid.real) (fun c' id h => ?_) (fun c' id h => ?_) rfl config call
  · rw [← h, tryId, Creds.seteuid]
    split <;> rfl
  · rw [← h, tryId, Creds.setegid]
    split <;> rfl

/-- With the way back open, the unchecked calls of `ElevateOnDrop` and of the guard make the process root. -/
theorem elevated_of_recoverable {c : Creds} (h : c.Recoverable) :
    tryId (Creds.setegid 0) (tryId (Creds.seteuid 0) c) = ⟨.all 0, .all 0⟩ := by
  obtain ⟨⟨ur, ue, us⟩, ⟨gr, ge, gs⟩⟩ := c
  obtain ⟨rfl, rfl, rfl, rfl⟩ := h
  have hroot : Creds.seteuid 0 ⟨⟨0, ue, 0⟩, ⟨0, ge, 0⟩⟩ = some ⟨⟨0, 0, 0⟩, ⟨0, ge, 0⟩⟩ := Creds.seteuid_real ⟨⟨0, ue, 0⟩, ⟨0, ge, 0⟩⟩
  rw [tryId, tryId, hroot, Option.getD_some, Creds.setegid_privileged rfl, Option.getD_some]
  rfl

/-! ## The drop -/

/-- A privileged process that drops its privileges on macOS has no identifier of root any more. -/
theorem dropPrivileges_macos {c : Creds} (hc : c.uid.effective = 0) (u g : Nat) :
    (dropPrivileges .macos (some u) (some g)).run.run c = (.ok (), ⟨.all u, .all g⟩) := by
  have huid : (⟨c.uid, .all g⟩ : Creds).setuid u = some ⟨.all u, .all g⟩ :=
    Creds.setuid_privileged (c := ⟨c.uid, .all g⟩) hc u
  change (do setId (Creds.setgid g) _; setId (Creds.setuid u) _ : PrivM Unit).run.run c = _
  rw [setId_bind_run, Creds.setgid_privileged hc, Option.elim_some, huid, Option.elim_some]

/-- On macOS a privileged process becomes the invoker for good: no sequence of later calls changes its identifiers. -/
theorem dropPrivileges_sealed {u g : Nat} (hu : u ≠ 0) {c : Creds} (hc : c.uid.effective = 0) (calls : List SetCall) :
    (dropPrivileges .macos (some u) (some g)).run.run c = (.ok (), ⟨.all u, .all g⟩) ∧
      calls.foldl Creds.after ⟨.all u, .all g⟩ = ⟨.all u, .all g⟩ :=
  ⟨dropPrivileges_macos hc u g, Sealed.foldl hu rfl calls⟩

/-- The drop of a process that sudo has started, and then an attempt to become root again. -/
theorem dropPrivileges_sealed_sudo :
    (dropPrivileges .macos (some 501) (some 20)).run.run ⟨.all 0, .all 0⟩ = (.ok (), ⟨.all 501, .all 20⟩) ∧
      [SetCall.seteuid 0, .setuid 0].foldl Creds.after ⟨.all 501, .all 20⟩ = ⟨.all 501, .all 20⟩ :=
  dropPrivileges_sealed (by decide) (c := ⟨.all 0, .all 0⟩) rfl [.seteuid 0, .setuid 0]

/-- On Linux, whatever the functions of `privilege.rs` have done since the start, in whatever order, `ElevateOnDrop` makes the
process root again. -/
theorem elevateOnDrop_root {c : Creds} (h : c.Recoverable) (config : PrivilegeConfig) (calls : List PrivCall) :
    elevateOnDrop (calls.foldl (PrivCall.after .linux config) c) = ⟨.all 0, .all 0⟩ := by
  induction calls generalizing c with
  | nil => exact (if_pos h.1).trans (elevated_of_recoverable h)
  | cons call calls ih => exact ih (recoverable_after h config call)

/-- `ElevateOnDrop` after a drop, an acquired guard and another drop. -/
theorem elevateOnDrop_root_sudo :
    elevateOnDrop ([PrivCall.dropPrivileges, .acquireGuard, .dropEffectivePrivileges].foldl
      (PrivCall.after .linux ⟨501, 20, some 501, some 20⟩) ⟨.all 0, .all 0⟩) = ⟨.all 0, .all 0⟩ :=
  elevateOnDrop_root (c := ⟨.all 0, .all 0⟩) ⟨rfl, rfl, rfl, rfl⟩ ⟨501, 20, some 501, some 20⟩
    [.dropPrivileges, .acquireGuard, .dropEffectivePrivileges]

/-! ## The invoker -/

/-- The elements of `successors` by their number. -/
def chain {α : Type} (succ : α → Option α) (first : Option α) : Nat → Option α
  | 0 => first
  | k + 1 => (chain succ first k).bind succ

theorem chain_succ {α : Type} (succ : α → Option α) (first : Option α) (k : Nat) :
    chain succ first (k + 1) = chain succ (first.bind succ) k := by
  induction k with
  | zero => rfl
  | succ k ih => exact congrArg (Option.bind · succ) ih

theorem chain_none {α : Type} (succ : α → Option α) (k : Nat) : chain succ none k = none := by
  induction k with
  | zero => rfl
  | succ k ih => exact congrArg (Option.bind · succ) ih

theorem successors_drop_one {α : Type} (succ : α → Option α) (n : Nat) (first : Option α) :
    (successors succ (n + 1) first).drop 1 = successors succ n (first.bind succ) := by
  cases first with
  | none => cases n <;> rfl
  | some a => rfl

/-- What is found among the first `n` elements is found at the end of a chain of elements in which it is not found. -/
theorem findSome?_successors {α β : Type} {succ : α → Option α} {f : α → Option β} {b : β} {n : Nat} {first : Option α} :
    (successors succ n first).findSome? f = some b ↔
      ∃ k < n, (chain succ first k).bind f = some b ∧ ∀ j < k, ∃ a, chain succ first j = some a ∧ f a = none := by
  induction n generalizing first with
  | zero => simp [successors]
  | succ n ih =>
    cases first with
    | none => simp [successors, chain_none]
    | some a =>
      rw [successors, List.findSome?_cons]
      cases hf : f a with
      | some b' =>
        constructor
        · intro h
          exact ⟨0, n.succ_pos, hf.trans h, fun j hj => absurd hj (Nat.not_lt_zero j)⟩
        · rintro ⟨k, -, hk, hbefore⟩
          cases k with
          | zero => exact hf.symm.trans hk
          | succ k =>
            obtain ⟨a', ha, hnone⟩ := hbefore 0 k.succ_pos
            cases Option.some.inj ha
            exact absurd (hf.symm.trans hnone) (Option.some_ne_none b')
      | none =>
        rw [ih]
        constructor
        · rintro ⟨k, hk, hb, hbefore⟩
          refine ⟨k + 1, Nat.succ_lt_succ hk, by rw [chain_succ]; exact hb, fun j hj => ?_⟩
          cases j with
          | zero => exact ⟨a, rfl, hf⟩
          | succ j =>
            rw [chain_succ]
            exact hbefore j (Nat.lt_of_succ_lt_succ hj)
        · rintro ⟨k, hk, hb, hbefore⟩
          cases k with
          | zero => exact absurd (hf.symm.trans hb) (Option.some_ne_none b).symm
          | succ k =>
            rw [chain_succ] at hb
            refine ⟨k, Nat.lt_of_succ_lt_succ hk, hb, fun j hj => ?_⟩
            obtain ⟨a', ha, hnone⟩ := hbefore (j + 1) (Nat.succ_lt_succ hj)
            rw [chain_succ] at ha
            exact ⟨a', ha, hnone⟩

/-- The ancestor of a process in the generation `k`; the process itself is the generation 0. -/
def ancestor (procInfo : Nat → Option ProcInfo) (pid : Nat) : Nat → Option ProcInfo :=
  chain (fun info => procInfo info.ppid) (procInfo pid)

/-- The walk finds the nearest ancestor, at most five generations up, that is not run by root. -/
theorem walkToInvoker_ok_iff {procInfo : Nat → Option ProcInfo} {pid : Nat} {identity : InvokerIdentity} :
    walkToInvoker procInfo pid = .ok identity ↔
      ∃ k < 5, ∃ info, ancestor procInfo pid (k + 1) = some info ∧ info.uid ≠ 0 ∧ identity = ⟨info.uid, info.gid⟩ ∧
        ∀ j < k, ∃ info, ancestor procInfo pid (j + 1) = some info ∧ info.uid = 0 := by
  have hfound : walkToInvoker procInfo pid = .ok identity ↔
      ((successors (fun info => procInfo info.ppid) 6 (procInfo pid)).drop 1).findSome?
        (fun info => if info.uid ≠ 0 then some (⟨info.uid, info.gid⟩ : InvokerIdentity) else none) = some identity := by
    unfold walkToInvoker
    split
    · next found heq => rw [heq, Except.ok.injEq, Option.some.injEq]
    · next heq =>
      rw [heq]
      simp
  rw [hfound, successors_drop_one, findSome?_successors]
  simp only [ancestor, chain_succ]
  refine exists_congr fun k => and_congr_right fun _ => ?_
  constructor
  · rintro ⟨hk, hbefore⟩
    obtain ⟨info, hinfo, hid⟩ := Option.bind_eq_some_iff.1 hk
    obtain ⟨huid, hid⟩ := Option.ite_none_right_eq_some.1 hid
    refine ⟨info, hinfo, huid, (Option.some.inj hid).symm, fun j hj => ?_⟩
    obtain ⟨info', hinfo', hnone⟩ := hbefore j hj
    exact ⟨info', hinfo', by simpa using hnone⟩
  · rintro ⟨info, hinfo, huid, rfl, hbefore⟩
    refine ⟨Option.bind_eq_some_iff.2 ⟨info, hinfo, if_pos huid⟩, fun j hj => ?_⟩
    obtain ⟨info', hinfo', hroot⟩ := hbefore j hj
    exact ⟨info', hinfo', if_neg (not_not.2 hroot)⟩

end Anylinuxfs
