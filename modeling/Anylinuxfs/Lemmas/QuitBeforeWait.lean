import Anylinuxfs.Lemmas.Deferred
import Anylinuxfs.Lemmas.RootfsLock

/-!
# The quit command and the wait

What is left of the body of a mount, together with its deferred actions, says whether its VM will be told to quit before it is
waited for (`Guarded`). A step keeps that, or leaves the process in a state in which it does not matter any more: the VM is over
or was told to quit, and no other is begun (`Settled`).
-/

namespace Anylinuxfs

open Flock Transition

/-! ## Deferred actions -/

/-- The quit command comes before the wait, or the wait does not come. -/
def quitFirst : List Action → Bool
  | [] => true
  | .sendQuitCmd :: _ => true
  | .waitForVmStatus :: _ => false
  | _ :: rest => quitFirst rest

theorem quitFirst_of_notMem {l : List Action} (h : Action.waitForVmStatus ∉ l) : quitFirst l = true := by
  induction l with
  | nil => rfl
  | cons a l ih =>
    rw [List.mem_cons, not_or] at h
    cases a <;> first | rfl | exact ih h.2 | exact absurd rfl h.1

/-! ## Bodies -/

/-- The operation does not begin a VM. -/
def Op.beginsNoVm : Op → Bool
  | .forkVm _ | .startVm _ => false
  | _ => true

/-- Whatever comes of the operations that are left, the VM is told to quit before it is waited for: a failure between the
registrations of the two deferred actions and an NFS server that is not ready are left out. -/
def Guarded : List Op → Deferred Action → (Action → ActionId) → Bool
  | [], d, _ => quitFirst d.runOrder
  | op :: rest, d, ids =>
    match op with
    | .sendQuitCmd => rest.all Op.beginsNoVm
    | .waitForVmStatus | .startVm _ | .insideVm => false
    | .acquireLock _ | .upgrade => quitFirst d.runOrder && Guarded rest d ids
    | .waitForNfsServer =>
      d.runOrder.contains .waitForVmStatus && !d.runOrder.contains .sendQuitCmd && Guarded rest d ids
    | .add action => Guarded rest (d.add action).2 (Function.update ids action (d.add action).1)
    | .remove action => Guarded rest (d.remove (ids action)).2 ids
    | .callNow action =>
      (d.callNow (ids action)).1.all (fun a => a.body.isEmpty) && Guarded rest (d.callNow (ids action)).2 ids
    | .dropInner => Guarded rest d ids
    | .call _ | .rewriteRootfs | .removeRootfs | .forkVm _ | .waitpid =>
      (!d.runOrder.contains .sendQuitCmd || quitFirst d.runOrder) && Guarded rest d ids

/-- An operation that may fail. -/
theorem guarded_of_fallible {op : Op} {rest : List Op} {d : Deferred Action} {ids : Action → ActionId}
    (h : Guarded (op :: rest) d ids = true) (hop : op.plain = true ∨ (∃ w, op = .forkVm w) ∨ (∃ w, op = .startVm w) ∨ op = .waitpid) :
    (Action.sendQuitCmd ∈ d.runOrder → quitFirst d.runOrder = true) ∧ Guarded rest d ids = true := by
  have hor : (!d.runOrder.contains .sendQuitCmd || quitFirst d.runOrder) = true ∧ Guarded rest d ids = true := by
    rcases hop with hop | ⟨w, rfl⟩ | ⟨w, rfl⟩ | rfl
    · cases op <;> first | (simpa only [Guarded, Bool.and_eq_true] using h) | cases hop
    · simpa only [Guarded, Bool.and_eq_true] using h
    · cases h
    · simpa only [Guarded, Bool.and_eq_true] using h
  exact ⟨fun hquit => by simpa [hquit] using hor.1, hor.2⟩

/-- The operations that leave the deferred actions alone and do nothing about the VM. -/
def Op.keepsDeferred : Op → Bool
  | .call _ | .acquireLock _ | .upgrade | .dropInner | .rewriteRootfs | .removeRootfs | .forkVm _ | .waitpid => true
  | _ => false

theorem guarded_append {ops rest : List Op} {d : Deferred Action} {ids : Action → ActionId}
    (hops : ops.all Op.keepsDeferred = true) (hq : quitFirst d.runOrder = true) :
    Guarded (ops ++ rest) d ids = Guarded rest d ids := by
  induction ops with
  | nil => rfl
  | cons op ops ih =>
    rw [List.all_cons, Bool.and_eq_true] at hops
    have hrest := ih hops.2
    cases op <;> first | simp [Guarded, hq, hrest]; done | cases hops.1

theorem keepsDeferred_vmImageInit (init : InitCase) : (vmImageInit init).all Op.keepsDeferred = true := by
  cases init <;> rfl

theorem guarded_runMountChild (c : MountCase) : Guarded (runMountChild c) .new (fun _ => 0) = true := by
  have hsplit : runMountChild c =
      (([Op.call .lockFileNew, .acquireLock .shared, .call .claimDevices] ++
        (if c.freebsd then [Op.call .selectImage] else [])) ++ vmImageInit c.init) ++
      ([Op.call .prepareVmEnvironment, .call .startNetHelper, .call .waitForFile, .add .vfkitSockCleanup,
        .call .netHelperTryWait, .add .terminateNetHelper, .add .vsockCleanup, .call .prepareKeyFileForVm] ++
        (if c.keyFile then [Op.add .removeKeyFile] else []) ++ [Op.forkVm c.rwRootfs] ++ mountSupervise c ++ [Op.waitForNfsServer] ++
        mountReady c ++ mountFinish) := by
    simp [runMountChild, mountPrelude]
  have hkeeps : ((([Op.call .lockFileNew, .acquireLock .shared, .call .claimDevices] ++
      (if c.freebsd then [Op.call .selectImage] else [])) ++ vmImageInit c.init) : List Op).all Op.keepsDeferred = true := by
    rw [List.all_append, keepsDeferred_vmImageInit, Bool.and_true]
    cases c.freebsd <;> rfl
  rw [hsplit, guarded_append hkeeps rfl]
  unfold mountSupervise mountReady
  generalize (c.mounted && !c.customMountPoint) = removes
  cases c.keyFile <;> cases c.rpcbind <;> cases removes <;> cases c.canDetach <;> rfl

/-! ## Steps -/

/-- The VM is over or was told to quit, and no other is begun. -/
def Settled (v : View) : Prop :=
  (v.proc.vm.phase.over = true ∨ Event.sendQuitCmd ∈ v.proc.events) ∧ v.proc.code.all Op.beginsNoVm = true

section

variable {granted : FlockKind → Bool} {v v' : View} {act : Act}

theorem beginsNoVm_body (action : Action) : action.body.all Op.beginsNoVm = true := by
  cases action <;> rfl

/-- A step that leaves the VM alone and goes on with operations that begin none. -/
theorem Settled.of_code (h : Settled v) (hvm : v'.proc.vm = v.proc.vm) (hevents : v.proc.events ⊆ v'.proc.events)
    (hcode : v'.proc.code.all Op.beginsNoVm = true) : Settled v' := by
  refine ⟨?_, hcode⟩
  rw [hvm]
  exact h.1.imp_right fun hq => hevents hq

/-- Every step keeps a process settled. -/
theorem Settled.step (h : Settled v) (hs : LocalStep granted v act v') : Settled v' := by
  have hrest : ∀ {op rest}, v.proc.code = op :: rest → op.beginsNoVm = true ∧ rest.all Op.beginsNoVm = true := by
    intro op rest hcode
    have := h.2
    rwa [hcode, List.all_cons, Bool.and_eq_true] at this
  have hself : v.proc.events ⊆ v.proc.events := List.Subset.refl _
  have hmore : ∀ e, v.proc.events ⊆ v.proc.events ++ [e] := fun e => List.subset_append_left _ _
  have htail : v.proc.code.tail.all Op.beginsNoVm = true := by
    cases hc : v.proc.code with
    | nil => rfl
    | cons op rest => exact (hrest hc).2
  cases hs with
  | upgradeFlock ok hcall =>
    refine h.of_code (by split <;> rfl) (by split <;> exact hself) ?_
    split
    · exact htail
    · rfl
  | dropFlock ok hcall => exact h
  | dropGuard ok hcall hcode hguards =>
    refine h.of_code ?_ ?_ ?_ <;> rw [dropGuard_code]
    · exact hself
    · exact h.2
  | deferred ok hcall hcode hguards hnext => exact h.of_code rfl hself (beginsNoVm_body _)
  | plain ok hcall hcode hop =>
    refine h.of_code rfl hself ?_
    cases ok with
    | true => exact (hrest hcode).2
    | false => rfl
  | waitForNfsServer ok hcall hcode =>
    refine h.of_code rfl hself ?_
    cases ok with
    | true => exact (hrest hcode).2
    | false => rfl
  | sendQuitCmd ok hcall hcode =>
    refine h.of_code rfl (hmore _) ?_
    cases ok with
    | true => exact (hrest hcode).2
    | false => rfl
  | acquireLock ok hcall hcode =>
    refine h.of_code (by split <;> rfl) (by split <;> exact hself) ?_
    split
    · exact (hrest hcode).2
    · rfl
  | upgrade ok hcall hcode hguards hk => exact h
  | upgradeNop ok hcall hcode hguards hk => exact h.of_code rfl hself (hrest hcode).2
  | dropInner ok hcall hcode hguards =>
    refine h.of_code (by rw [View.setCode, dropGuard_code]) ?_ (hrest hcode).2
    rw [View.setCode, dropGuard_code]
    exact hself
  | add ok hcall hcode | remove ok hcall hcode | waitpid hcall hcode hvm => exact h.of_code rfl hself (hrest hcode).2
  | callNow ok hcall hcode =>
    refine h.of_code rfl hself ?_
    dsimp only
    rw [List.all_append, (hrest hcode).2, Bool.and_true]
    cases (v.proc.deferred.callNow _).1 with
    | none => rfl
    | some a => exact beginsNoVm_body a
  | forkVm hcall hcode => exact absurd (hrest hcode).1 Bool.false_ne_true
  | startVm hcall hcode => exact absurd (hrest hcode).1 Bool.false_ne_true
  | fails hcall hcode hop => exact h.of_code rfl hself rfl
  | exit ok hcall hcode hvm => exact h.of_code rfl hself rfl
  | waitForVmStatus ok hcall hcode => exact h.of_code rfl (hmore _) (hrest hcode).2
  | vmEnter hvm | vmFail hvm | vmExit hvm =>
    refine ⟨Or.inr (h.1.resolve_left fun hover => ?_), h.2⟩
    rw [hvm] at hover
    cases hover
  | vmDropLocal hvm hguards hcall hproc =>
    obtain ⟨vm, hproc, _⟩ := hproc
    have hquit := h.1.resolve_left (by rw [hvm]; exact Bool.false_ne_true)
    refine ⟨Or.inr ?_, ?_⟩ <;> rw [hproc]
    · exact hquit
    · exact h.2

/-- The operations but the quit command itself that have a second outcome: they fail, or the NFS server is not ready. -/
def Op.mayFail (op : Op) : Bool := op.fallible && op != .sendQuitCmd || op == .waitForNfsServer

/-- The wait is not registered, the VM is over, or it was told to quit or will be when the actions run. -/
def QuitArranged (v : View) : Prop :=
  Action.waitForVmStatus ∈ v.proc.deferred.runOrder → v.proc.vm.phase.over = true ∨ Event.sendQuitCmd ∈ v.proc.events ∨
    Action.sendQuitCmd ∈ v.proc.deferred.runOrder

/-- A body that ends here, early or not. -/
theorem guarded_or_settled_nil (hcode : v'.proc.code = []) (hdeferred : v'.proc.deferred = v.proc.deferred)
    (hvm : v'.proc.vm = v.proc.vm) (hevents : v'.proc.events = v.proc.events)
    (hq : quitFirst v.proc.deferred.runOrder = true ∨ v.proc.vm.phase.over = true ∨ Event.sendQuitCmd ∈ v.proc.events) :
    Guarded v'.proc.code v'.proc.deferred v'.proc.ids = true ∨ Settled v' := by
  unfold Settled
  rw [hcode, hdeferred, hvm, hevents]
  exact hq.imp id fun h => ⟨h, rfl⟩

/-- A step keeps a body guarded or settles the process, if what fails and what is not ready finds the quit arranged. -/
theorem guarded_step (hb : Scoped lockCheck v) (h : Guarded v.proc.code v.proc.deferred v.proc.ids = true)
    (hs : LocalStep granted v act v')
    (hcond : act = .step false → v.proc.code.head?.any Op.mayFail = true → QuitArranged v) :
    Guarded v'.proc.code v'.proc.deferred v'.proc.ids = true ∨ Settled v' := by
  have hends : ∀ {op rest}, act = .step false → v.proc.code = op :: rest →
      (op.plain = true ∨ (∃ w, op = .forkVm w) ∨ (∃ w, op = .startVm w) ∨ op = .waitpid) →
      quitFirst v.proc.deferred.runOrder = true ∨ v.proc.vm.phase.over = true ∨ Event.sendQuitCmd ∈ v.proc.events := by
    intro op rest hact hcode hop
    have hfails : v.proc.code.head?.any Op.mayFail = true := by
      rw [hcode]
      rcases hop with hop | ⟨w, rfl⟩ | ⟨w, rfl⟩ | rfl
      · cases op <;> first | rfl | cases hop
      · rfl
      · rfl
      · rfl
    by_cases hwait : Action.waitForVmStatus ∈ v.proc.deferred.runOrder
    · rcases hcond hact hfails hwait with hover | hquit | hregistered
      · exact Or.inr (Or.inl hover)
      · exact Or.inr (Or.inr hquit)
      · rw [hcode] at h
        exact Or.inl ((guarded_of_fallible h hop).1 hregistered)
    · exact Or.inl (quitFirst_of_notMem hwait)
  cases hs with
  | upgradeFlock ok hcall =>
    obtain ⟨rest, hcode⟩ := hb.upgrading hcall
    simp only [hcode, Guarded, Bool.and_eq_true] at h
    split
    · simp only [View.setCode, hcode, List.tail_cons]
      exact Or.inl h.2
    · exact guarded_or_settled_nil rfl rfl rfl rfl (Or.inl h.1)
  | dropFlock ok hcall => exact Or.inl h
  | dropGuard ok hcall hcode hguards =>
    rw [dropGuard_code]
    exact Or.inl h
  | deferred ok hcall hcode hguards hnext =>
    rw [hcode, Guarded, Deferred.runOrder_of_dropNext hnext] at h
    rename_i action d
    left
    cases action <;> exact h
  | plain ok hcall hcode hop =>
    cases ok with
    | true =>
      rw [hcode] at h
      exact Or.inl (guarded_of_fallible h (Or.inl hop)).2
    | false => exact guarded_or_settled_nil rfl rfl rfl rfl (hends rfl hcode (Or.inl hop))
  | acquireLock ok hcall hcode =>
    simp only [hcode, Guarded, Bool.and_eq_true] at h
    split
    · exact Or.inl h.2
    · exact guarded_or_settled_nil rfl rfl rfl rfl (Or.inl h.1)
  | upgrade ok hcall hcode hguards hk => exact Or.inl h
  | upgradeNop ok hcall hcode hguards hk =>
    simp only [hcode, Guarded, Bool.and_eq_true] at h
    exact Or.inl h.2
  | dropInner ok hcall hcode hguards =>
    simp only [hcode, Guarded] at h
    simp only [View.setCode, dropGuard_code]
    exact Or.inl h
  | add ok hcall hcode | remove ok hcall hcode =>
    simp only [hcode, Guarded] at h
    exact Or.inl h
  | forkVm hcall hcode | waitpid hcall hcode hvm =>
    simp only [hcode, Guarded, Bool.and_eq_true] at h
    exact Or.inl h.2
  | callNow ok hcall hcode =>
    simp only [hcode, Guarded, Bool.and_eq_true] at h
    rename_i action rest
    have hnil : (v.proc.deferred.callNow (v.proc.ids action)).1.elim [] Action.body = [] := by
      cases hc : (v.proc.deferred.callNow (v.proc.ids action)).1 with
      | none => rfl
      | some a => simpa [hc] using h.1
    left
    dsimp only
    rw [hnil]
    exact h.2
  | fails hcall hcode hop => exact guarded_or_settled_nil rfl rfl rfl rfl (hends rfl hcode (Or.inr hop))
  | startVm hcall hcode | exit ok hcall hcode hvm | waitForVmStatus ok hcall hcode =>
    simp only [hcode, Guarded] at h
    exact absurd h Bool.false_ne_true
  | waitForNfsServer ok hcall hcode =>
    simp only [hcode, Guarded, Bool.and_eq_true, Bool.not_eq_true', List.contains_eq_mem, decide_eq_true_eq,
      decide_eq_false_iff_not] at h
    obtain ⟨⟨hwait, hnot⟩, hrest⟩ := h
    cases ok with
    | true => exact Or.inl hrest
    | false =>
      refine Or.inr ⟨?_, rfl⟩
      rcases hcond rfl (by rw [hcode]; rfl) hwait with hover | hquit | hregistered
      · exact Or.inl hover
      · exact Or.inr hquit
      · exact absurd hregistered hnot
  | sendQuitCmd ok hcall hcode =>
    simp only [hcode, Guarded] at h
    refine Or.inr ⟨Or.inr (by simp), ?_⟩
    cases ok with
    | true => exact h
    | false => rfl
  | vmEnter hvm | vmFail hvm | vmExit hvm => exact Or.inl h
  | vmDropLocal hvm hguards hcall hproc =>
    obtain ⟨vm, hproc, _⟩ := hproc
    rw [hproc]
    exact Or.inl h

end

end Anylinuxfs
