import Anylinuxfs.Lib.Reach
import Anylinuxfs.Lemmas.CommandSys
import Anylinuxfs.Lemmas.FlockGuard

/-!
# Guards along a body

Which guards a process has is fixed by where it is in its body, so what a command does under which guards can be read off its
body (`Along`), and every step keeps what was read off (`Scoped.step`). Over this stand the two invariants about the lock: what
holds of exclusive guards in every run (`WriterInv`), and what holds of all guards as long as nothing goes wrong (`LockedInv`).
-/

namespace Anylinuxfs

open Flock Transition LockSys

/-! ## Bodies -/

/-- The innermost guard is exclusive. -/
def topExclusive (gs : List FlockGuard) : Bool := gs.head?.any (fun g => g.currentKind == .exclusive)

/-- The guards after an operation that succeeds. -/
def Op.guardsAfter (gs : List FlockGuard) : Op → List FlockGuard
  | .acquireLock kind => ⟨kind, some .unlock⟩ :: gs
  | .upgrade => ⟨.exclusive, if topExclusive gs then none else some .shared⟩ :: gs
  | .dropInner => gs.tail
  | _ => gs

/-- The operation finds the guards that the borrow checker asks for. -/
def Op.borrows (gs : List FlockGuard) : Op → Bool
  | .acquireLock _ => gs.isEmpty
  | .upgrade | .dropInner => !gs.isEmpty
  | _ => true

/-- Every operation of a body that begins under the guards `gs` passes a check on its guards and on the rest of the body. -/
def Along (check : List FlockGuard → Op → List Op → Bool) : List FlockGuard → List Op → Bool
  | _, [] => true
  | gs, op :: rest => op.borrows gs && check gs op rest && Along check (op.guardsAfter gs) rest

/-- The operations that neither touch the guards nor the rootfs nor begin a VM. -/
def Op.quiet : Op → Bool
  | .acquireLock _ | .upgrade | .dropInner | .rewriteRootfs | .removeRootfs | .forkVm _ | .startVm _ => false
  | _ => true

/-- The body comes by quiet operations to a wait for its VM or, if it may, to its end. -/
def quietUntilWait (mayEnd : Bool) : List Op → Bool
  | [] => mayEnd
  | .waitpid :: _ => true
  | op :: rest => op.quiet && quietUntilWait mayEnd rest

/-- The operations that have nothing to do with guards, the rootfs and VM processes. -/
def Op.idle : Op → Bool
  | .call _ | .add _ | .remove _ | .callNow _ | .waitForNfsServer | .sendQuitCmd | .waitForVmStatus => true
  | _ => false

/-- A check that only looks at operations that touch the guards or the rootfs or begin a VM. -/
structure Neutral (check : List FlockGuard → Op → List Op → Bool) : Prop where
  idle : ∀ {op : Op}, op.idle = true → ∀ gs rest, check gs op rest = true
  waitpid : ∀ gs rest, check gs .waitpid rest = true
  insideVm : ∀ gs rest, check gs .insideVm rest = true

section

variable {check : List FlockGuard → Op → List Op → Bool} {gs : List FlockGuard} {op : Op} {ops rest : List Op}

theorem along_idle_cons (hc : Neutral check) (hop : op.idle = true) : Along check gs (op :: rest) = Along check gs rest := by
  have hsame : op.borrows gs = true ∧ op.guardsAfter gs = gs := by
    cases op <;> first | exact ⟨rfl, rfl⟩ | cases hop
  rw [Along, hsame.1, hsame.2, hc.idle hop]
  rfl

theorem along_idle_append (hc : Neutral check) (hops : ops.all Op.idle = true) :
    Along check gs (ops ++ rest) = Along check gs rest := by
  induction ops with
  | nil => rfl
  | cons op ops ih =>
    rw [List.all_cons, Bool.and_eq_true] at hops
    rw [List.cons_append, along_idle_cons hc hops.1, ih hops.2]

theorem along_waitpid_cons (hc : Neutral check) : Along check gs (.waitpid :: rest) = Along check gs rest := by
  rw [Along, hc.waitpid]
  rfl

theorem along_body_append (hc : Neutral check) (h : Along check gs rest = true) (action : Action) :
    Along check gs (action.body ++ rest) = true := by
  cases action with
  | sendQuitCmd => exact (along_idle_append hc rfl).trans h
  | waitForVmStatus => exact (along_idle_cons hc rfl).trans ((along_waitpid_cons hc).trans h)
  | _ => exact h

theorem along_body (hc : Neutral check) (gs : List FlockGuard) (action : Action) : Along check gs action.body = true := by
  rw [← List.append_nil action.body]
  exact along_body_append hc rfl action

theorem along_mountNotReady (hc : Neutral check) (gs : List FlockGuard) : Along check gs mountNotReady = true := by
  have hsplit : mountNotReady =
      [Op.call .dropPrivileges, .call .writeToPipe, .remove .waitForVmStatus, .waitForVmStatus] ++ [Op.waitpid] := rfl
  rw [hsplit, along_idle_append hc rfl, along_waitpid_cons hc]
  rfl

end

theorem quiet_cons {mayEnd : Bool} {op : Op} {rest : List Op} (hw : op ≠ .waitpid) :
    quietUntilWait mayEnd (op :: rest) = (op.quiet && quietUntilWait mayEnd rest) := by
  cases op <;> first | rfl | exact absurd rfl hw

theorem quiet_idle_append {mayEnd : Bool} {ops rest : List Op} (hops : ops.all Op.idle = true) :
    quietUntilWait mayEnd (ops ++ rest) = quietUntilWait mayEnd rest := by
  induction ops with
  | nil => rfl
  | cons op ops ih =>
    rw [List.all_cons, Bool.and_eq_true] at hops
    have hquiet : op.quiet = true := by cases op <;> first | rfl | cases hops.1
    have hw : op ≠ .waitpid := by
      rintro rfl
      cases hops.1
    rw [List.cons_append, quiet_cons hw, hquiet, Bool.true_and, ih hops.2]

theorem quiet_body_append {mayEnd : Bool} {rest : List Op} (h : quietUntilWait mayEnd rest = true) (action : Action) :
    quietUntilWait mayEnd (action.body ++ rest) = true := by
  cases action <;> simp [Action.body, quietUntilWait, Op.quiet, h]

/-- What `call_now` puts in front, if the action is there at all. -/
theorem quiet_called_append {mayEnd : Bool} {rest : List Op} (h : quietUntilWait mayEnd rest = true) (called : Option Action) :
    quietUntilWait mayEnd (called.elim [] Action.body ++ rest) = true := by
  cases called with
  | none => exact h
  | some action => exact quiet_body_append h action

theorem quiet_of_waits {code : List Op} (h : quietUntilWait false code = true) : quietUntilWait true code = true := by
  induction code with
  | nil => rfl
  | cons op rest ih =>
    by_cases hw : op = .waitpid
    · rw [hw]
      rfl
    · rw [quiet_cons hw, Bool.and_eq_true] at h ⊢
      exact ⟨h.1, ih h.2⟩

/-! ## The bodies of the commands -/

theorem idle_mountSupervise (c : MountCase) : (mountSupervise c).all Op.idle = true := by
  unfold mountSupervise
  cases c.rpcbind <;> rfl

theorem idle_mountReady (c : MountCase) : (mountReady c).all Op.idle = true := by
  unfold mountReady
  cases c.mounted && !c.customMountPoint <;> cases c.canDetach <;> rfl

/-- The supervising process comes to the wait for its VM by quiet operations. -/
theorem quiet_mountSupervise (c : MountCase) :
    quietUntilWait false (mountSupervise c ++ [Op.waitForNfsServer] ++ mountReady c ++ mountFinish) = true := by
  rw [List.append_assoc, List.append_assoc, quiet_idle_append (idle_mountSupervise c), quiet_idle_append rfl,
    quiet_idle_append (idle_mountReady c)]
  rfl

/-- The guard that `acquire_lock` returns. -/
def outerGuard (kind : FlockKind) : FlockGuard := ⟨kind, some .unlock⟩

/-- The body of a mount passes a check that its acquisition, `vm_image::init` and its fork pass. -/
theorem along_runMountChild {check : List FlockGuard → Op → List Op → Bool} (hc : Neutral check) (c : MountCase)
    (hacquire : ∀ rest, check [] (.acquireLock .shared) rest = true)
    (hinit : ∀ rest, Along check [outerGuard .shared] rest = true →
      Along check [outerGuard .shared] (vmImageInit c.init ++ rest) = true)
    (hfork : ∀ rest, quietUntilWait false rest = true → check [outerGuard .shared] (.forkVm c.rwRootfs) rest = true) :
    Along check [] (runMountChild c) = true := by
  have hsupervise : Along check [outerGuard .shared] (Op.forkVm c.rwRootfs ::
      (mountSupervise c ++ [Op.waitForNfsServer] ++ mountReady c ++ mountFinish)) = true := by
    rw [Along, hfork _ (quiet_mountSupervise c), List.append_assoc, List.append_assoc]
    change Along check [outerGuard .shared] _ = true
    rw [along_idle_append hc (idle_mountSupervise c), along_idle_append hc rfl, along_idle_append hc (idle_mountReady c)]
    have hfinish : mountFinish = [Op.remove .waitForVmStatus, .waitForVmStatus] ++ [Op.waitpid] := rfl
    rw [hfinish, along_idle_append hc rfl, along_waitpid_cons hc]
    rfl
  have hsplit : runMountChild c = Op.call .lockFileNew :: .acquireLock .shared ::
      ((Op.call .claimDevices :: (if c.freebsd then [Op.call .selectImage] else [])) ++ (vmImageInit c.init ++
        (([Op.call .prepareVmEnvironment, .call .startNetHelper, .call .waitForFile, .add .vfkitSockCleanup,
          .call .netHelperTryWait, .add .terminateNetHelper, .add .vsockCleanup, .call .prepareKeyFileForVm] ++
          (if c.keyFile then [Op.add .removeKeyFile] else [])) ++ (Op.forkVm c.rwRootfs ::
            (mountSupervise c ++ [Op.waitForNfsServer] ++ mountReady c ++ mountFinish))))) := by
    simp [runMountChild, mountPrelude]
  rw [hsplit, along_idle_cons hc rfl, Along, hacquire]
  change Along check [outerGuard .shared] _ = true
  rw [along_idle_append hc (by cases c.freebsd <;> rfl)]
  refine hinit _ ?_
  rw [along_idle_append hc (by cases c.keyFile <;> rfl)]
  exact hsupervise

/-! ## What every step keeps -/

/-- The guards nest, a process inside a conversion has one shared guard, and the rest of the body passes the check under the
guards. -/
structure Scoped (check : List FlockGuard → Op → List Op → Bool) (v : View) : Prop where
  nested : Nested v.guards
  calling : v.call ≠ none → ∃ g, v.guards = [g] ∧ g.currentKind = .shared
  upgrading : v.call = some .upgrade → ∃ rest, v.proc.code = .upgrade :: rest
  along : Along check v.guards v.proc.code = true

theorem ne_exclusive_iff {k : FlockKind} : k ≠ .exclusive ↔ k = .shared := by
  cases k <;> simp

section

variable {granted : FlockKind → Bool} {v v' : View} {act : Act} {check : List FlockGuard → Op → List Op → Bool}

/-- A step that leaves the guards alone goes on with a part of the body, or with another that passes the check. -/
theorem Scoped.of_code (h : Scoped check v) (hcall : v.call = none) (hguards : v'.guards = v.guards) (hcall' : v'.call = v.call)
    (hcode : Along check v.guards v'.proc.code = true) : Scoped check v' := by
  refine ⟨hguards ▸ h.nested, fun hc => ?_, fun hc => ?_, hguards ▸ hcode⟩
  · exact absurd (hcall'.trans hcall) hc
  · exact absurd (hcall.symm.trans (hcall'.symm.trans hc)) (nomatch ·)

theorem View.setCode_dropGuard_nil {g : FlockGuard} {rest : List FlockGuard} (hcode : v.proc.code = []) :
    (v.dropGuard g rest).setCode [] = v.dropGuard g rest := by
  unfold View.dropGuard View.setCode
  split <;> rw [← hcode]

/-- Dropping the innermost guard keeps the nesting, and a revert to shared is on a single shared guard. -/
theorem Scoped.dropGuard {g : FlockGuard} {rest : List FlockGuard} {code : List Op} (h : Scoped check v)
    (hcall : v.call = none) (hguards : v.guards = g :: rest) (hcode : Along check rest code = true) :
    Scoped check ((v.dropGuard g rest).setCode code) := by
  have hn := h.nested
  rw [hguards] at hn
  unfold View.dropGuard
  cases hn with
  | outermost k => exact ⟨.nil, fun hc => absurd hcall hc, fun hc => absurd (hcall.symm.trans hc) (nomatch ·), hcode⟩
  | noop hn _ => exact ⟨hn, fun hc => absurd hcall hc, fun hc => absurd (hcall.symm.trans hc) (nomatch ·), hcode⟩
  | upgraded hn hk =>
    refine ⟨hn, fun _ => ⟨_, ?_, hk⟩, fun hc => (nomatch hc), hcode⟩
    rw [hn.rest_of_shared hk]
    rfl

theorem Scoped.passes {op : Op} {rest : List Op} (h : Scoped check v) (hcode : v.proc.code = op :: rest) :
    check v.guards op rest = true := by
  have := h.along
  rw [hcode, Along, Bool.and_eq_true, Bool.and_eq_true] at this
  exact this.1.2

/-- Every step keeps what was read off the body. -/
theorem Scoped.step (hc : Neutral check) (h : Scoped check v) (hs : LocalStep granted v act v') : Scoped check v' := by
  have hrest : ∀ {op rest}, v.proc.code = op :: rest → Along check (op.guardsAfter v.guards) rest = true := by
    intro op rest hcode
    have := h.along
    rw [hcode, Along, Bool.and_eq_true] at this
    exact this.2
  have hborrows : ∀ {op rest}, v.proc.code = op :: rest → op.borrows v.guards = true := by
    intro op rest hcode
    have := h.along
    rw [hcode, Along, Bool.and_eq_true, Bool.and_eq_true] at this
    exact this.1.1
  -- the guards are the same, and the body goes on with `rest` or ends
  have hbranch : ∀ {op rest} (ok : Bool), v.proc.code = op :: rest → op.guardsAfter v.guards = v.guards →
      Along check v.guards (if ok then rest else []) = true := by
    intro op rest ok hcode hafter
    cases ok with
    | true => exact hafter ▸ hrest hcode
    | false => rfl
  cases hs with
  | upgradeFlock ok hcall =>
    obtain ⟨g, hguards, hk⟩ := h.calling (by rw [hcall]; exact nofun)
    obtain ⟨rest, hcode⟩ := h.upgrading hcall
    have hafter : Op.guardsAfter v.guards .upgrade = ⟨.exclusive, some .shared⟩ :: v.guards := by
      simp [Op.guardsAfter, topExclusive, hguards, hk]
    split
    · refine ⟨?_, fun hc => absurd rfl hc, fun hc => (nomatch hc), ?_⟩
      · have hn := h.nested
        simp only [View.setCode, hguards] at hn ⊢
        exact .upgraded hn hk
      · have := hrest hcode
        rw [hafter] at this
        simp only [View.setCode, hcode, List.tail_cons]
        exact this
    · exact ⟨h.nested, fun hc => absurd rfl hc, fun hc => (nomatch hc), rfl⟩
  | dropFlock ok hcall => exact ⟨h.nested, fun hc => absurd rfl hc, fun hc => (nomatch hc), h.along⟩
  | dropGuard ok hcall hcode hguards =>
    have := h.dropGuard hcall hguards (rfl : Along check _ [] = true)
    rwa [View.setCode_dropGuard_nil hcode] at this
  | deferred ok hcall hcode hguards hnext => exact h.of_code hcall rfl rfl (along_body hc _ _)
  | plain ok hcall hcode hop =>
    refine h.of_code hcall rfl rfl (hbranch ok hcode ?_)
    rename_i op _
    cases op <;> first | rfl | cases hop
  | acquireLock ok hcall hcode =>
    have hempty : v.guards = [] := by simpa [Op.borrows] using hborrows hcode
    split
    · refine ⟨?_, fun hc => absurd hcall hc, fun hc => absurd (hcall.symm.trans hc) (nomatch ·), hrest hcode⟩
      simp only [View.setCode, hempty]
      exact .outermost _
    · exact h.of_code hcall rfl rfl rfl
  | upgrade ok hcall hcode hguards hk =>
    have hk' := ne_exclusive_iff.1 hk
    have hn := h.nested
    rw [hguards] at hn
    refine ⟨h.nested, fun _ => ⟨_, ?_, hk'⟩, fun _ => ⟨_, hcode⟩, h.along⟩
    rw [← hn.rest_of_shared hk']
    exact hguards
  | upgradeNop ok hcall hcode hguards hk =>
    have hafter : Op.guardsAfter v.guards .upgrade = ⟨.exclusive, none⟩ :: v.guards := by
      simp [Op.guardsAfter, topExclusive, hguards, hk]
    refine ⟨?_, fun hc => absurd hcall hc, fun hc => absurd (hcall.symm.trans hc) (nomatch ·), hafter ▸ hrest hcode⟩
    have hn := h.nested
    simp only [View.setCode, hguards] at hn ⊢
    exact .noop hn hk
  | dropInner ok hcall hcode hguards =>
    have := hrest hcode
    rw [hguards] at this
    exact h.dropGuard hcall hguards this
  | add ok hcall hcode => exact h.of_code hcall rfl rfl (hrest hcode)
  | remove ok hcall hcode => exact h.of_code hcall rfl rfl (hrest hcode)
  | callNow ok hcall hcode =>
    refine h.of_code hcall rfl rfl ?_
    dsimp only
    cases (v.proc.deferred.callNow _).1 with
    | none => exact hrest hcode
    | some a => exact along_body_append hc (hrest hcode) a
  | forkVm hcall hcode => exact h.of_code hcall rfl rfl (hrest hcode)
  | fails hcall hcode hop => exact h.of_code hcall rfl rfl rfl
  | waitpid hcall hcode hvm => exact h.of_code hcall rfl rfl (hrest hcode)
  | startVm hcall hcode =>
    refine h.of_code hcall rfl rfl ?_
    simp [View.setCode, Along, Op.borrows, hc.insideVm]
  | exit ok hcall hcode hvm =>
    exact ⟨.nil, fun hc => absurd hcall hc, fun hc => absurd (hcall.symm.trans hc) (nomatch ·), rfl⟩
  | waitForNfsServer ok hcall hcode =>
    refine h.of_code hcall rfl rfl ?_
    cases ok with
    | true => exact hrest hcode
    | false => exact along_mountNotReady hc _
  | sendQuitCmd ok hcall hcode => exact h.of_code hcall rfl rfl (hbranch ok hcode rfl)
  | waitForVmStatus ok hcall hcode => exact h.of_code hcall rfl rfl (hrest hcode)
  | vmEnter hvm | vmFail hvm | vmExit hvm => exact ⟨h.nested, h.calling, h.upgrading, h.along⟩
  | vmDropLocal hvm hguards hcall hproc =>
    obtain ⟨vm, hproc, _⟩ := hproc
    refine ⟨hguards ▸ h.nested, ?_, ?_, ?_⟩
    · rw [hcall, hguards]
      exact h.calling
    · rw [hcall, hproc]
      exact h.upgrading
    · rw [hguards, hproc]
      exact h.along

/-! ## Exclusive guards -/

/-- Files of the rootfs are written and VMs with a writable root begun only under an exclusive guard, a forked VM is waited for,
and one with a writable root at once. -/
def writerCheck (gs : List FlockGuard) (op : Op) (rest : List Op) : Bool :=
  match op with
  | .rewriteRootfs | .removeRootfs => topExclusive gs
  | .forkVm writable =>
    quietUntilWait false rest && (!writable || (topExclusive gs && rest.head? == some .waitpid))
  | .startVm writable => !writable || topExclusive gs
  | _ => true

theorem neutral_writerCheck : Neutral writerCheck where
  idle := by
    intro op hop gs rest
    cases op <;> first | rfl | cases hop
  waitpid := fun _ _ => rfl
  insideVm := fun _ _ => rfl

/-- The VM process has not failed: it never dropped a guard. -/
def VmPhase.sound : VmPhase → Bool
  | .unwinding | .ended true => false
  | _ => true

/-- The VM process is about to be a VM, or is one. -/
def VmPhase.inVm : VmPhase → Bool
  | .starting | .running => true
  | _ => false

/-- An exclusive guard is true as long as the VM process has not failed; a VM with a writable root is under such a guard, with
its process waiting for it; and with a VM around the process leaves the rootfs alone. -/
structure WriterInv (v : View) : Prop where
  body : Scoped writerCheck v
  truthful : topExclusive v.guards = true → v.call = none → v.proc.vm.phase.sound = true → v.held = some .exclusive
  waiting : v.proc.vm.phase.inVm = true → v.proc.vm.writable = true → topExclusive v.guards = true ∧ v.call = none ∧
    (v.proc.code.head? = some .waitpid ∨ v.proc.code = [.insideVm])
  quiet : (v.proc.vm.phase.inVm = true ∨ v.proc.vm.phase.sound = false) → quietUntilWait true v.proc.code = true

theorem WriterInv.not_inVm (h : WriterInv v) (hcode : v.proc.code.head? ≠ some .waitpid)
    (hcode' : v.proc.code.head? ≠ some .insideVm) (hvm : v.proc.vm.phase.inVm = true) : v.proc.vm.writable = false := by
  refine Bool.eq_false_iff.2 fun hw => ?_
  rcases (h.waiting hvm hw).2.2 with hc | hc
  · exact hcode hc
  · rw [hc] at hcode'
    exact hcode' rfl

/-- A step that leaves the guards, the lock and the VM alone. -/
theorem WriterInv.of_code (h : WriterInv v) (hb : Scoped writerCheck v') (hguards : v'.guards = v.guards)
    (hcall : v'.call = v.call) (hheld : v'.held = v.held) (hvm : v'.proc.vm = v.proc.vm)
    (hcode : v.proc.code.head? ≠ some .waitpid) (hcode' : v.proc.code.head? ≠ some .insideVm)
    (hquiet : quietUntilWait true v.proc.code = true → quietUntilWait true v'.proc.code = true) : WriterInv v' := by
  refine ⟨hb, ?_, ?_, ?_⟩
  · rw [hguards, hcall, hheld, hvm]
    exact h.truthful
  · rw [hvm]
    intro h1 h2
    rw [h.not_inVm hcode hcode' h1] at h2
    cases h2
  · rw [hvm]
    exact fun hq => hquiet (h.quiet hq)

/-- A step of a process whose VM neither runs nor has failed, and that leaves the VM alone. -/
theorem WriterInv.of_calm (hb : Scoped writerCheck v') (hvm : v.proc.vm.phase.inVm = false)
    (hsound : v.proc.vm.phase.sound = true) (hvm' : v'.proc.vm = v.proc.vm)
    (htrue : topExclusive v'.guards = true → v'.call = none → v'.held = some .exclusive) : WriterInv v' := by
  refine ⟨hb, fun h1 h2 _ => htrue h1 h2, ?_, ?_⟩
  · rw [hvm', hvm]
    exact fun h1 => (nomatch h1)
  · rw [hvm', hvm, hsound]
    exact fun hq => hq.elim (nomatch ·) (nomatch ·)

/-- Before an operation that is not quiet, the VM neither runs nor has failed. -/
theorem WriterInv.calm {op : Op} {rest : List Op} (h : WriterInv v) (hcode : v.proc.code = op :: rest) (hop : op.quiet = false) :
    v.proc.vm.phase.inVm = false ∧ v.proc.vm.phase.sound = true := by
  have hnot : ¬quietUntilWait true v.proc.code = true := by
    have hw : op ≠ .waitpid := fun hw => by
      rw [hw] at hop
      cases hop
    rw [hcode, quiet_cons hw, hop]
    exact fun hq => (nomatch hq)
  refine ⟨Bool.eq_false_iff.2 fun hc => hnot (h.quiet (Or.inl hc)), ?_⟩
  cases hs : v.proc.vm.phase.sound with
  | true => rfl
  | false => exact absurd (h.quiet (Or.inr hs)) hnot

theorem not_topExclusive {g : FlockGuard} (hk : g.currentKind = .shared) : topExclusive [g] = false := by
  simp [topExclusive, hk]

/-- Dropping the innermost guard leaves an exclusive one only under an exclusive one, whose lock is kept. -/
theorem held_dropGuard {g : FlockGuard} {rest : List FlockGuard} (hn : Nested (g :: rest))
    (htrue : topExclusive (g :: rest) = true → v.held = some .exclusive)
    (hex : topExclusive (v.dropGuard g rest).guards = true) (hcall : (v.dropGuard g rest).call = none) :
    (v.dropGuard g rest).held = some .exclusive := by
  cases hn with
  | outermost k => cases hex
  | noop _ _ => exact htrue rfl
  | upgraded _ _ => cases hcall

theorem dropGuard_code (v : View) (g : FlockGuard) (rest : List FlockGuard) : (v.dropGuard g rest).proc = v.proc := by
  unfold View.dropGuard
  split <;> rfl

/-- Every step keeps the invariant, if no wait fails while the VM has a writable root. -/
theorem WriterInv.step (h : WriterInv v) (hs : LocalStep granted v act v')
    (hcond : act = .step false → v.proc.code.head? = some .waitpid → v.proc.vm.phase.inVm = true →
      v.proc.vm.writable = false) : WriterInv v' := by
  have hb := h.body.step neutral_writerCheck hs
  -- an operation that leaves all but the body alone
  have hcode : ∀ {op rest} {w : View} (hw : Scoped writerCheck w), v.proc.code = op :: rest → op.quiet = true →
      op ≠ .waitpid → op ≠ .insideVm → w.guards = v.guards → w.call = v.call → w.held = v.held → w.proc.vm = v.proc.vm →
      (quietUntilWait true rest = true → quietUntilWait true w.proc.code = true) → WriterInv w := by
    intro op rest w hw hcode hq h1 h2 hg hc hh hv hquiet
    refine h.of_code hw hg hc hh hv ?_ ?_ ?_
    · rw [hcode, List.head?_cons, ne_eq, Option.some.injEq]
      exact h1
    · rw [hcode, List.head?_cons, ne_eq, Option.some.injEq]
      exact h2
    · rw [hcode, quiet_cons h1, hq, Bool.true_and]
      exact hquiet
  cases hs with
  | upgradeFlock ok hcall =>
    obtain ⟨rest, hcode⟩ := h.body.upgrading hcall
    obtain ⟨g, hguards, hk⟩ := h.body.calling (by rw [hcall]; exact nofun)
    obtain ⟨hvm, hsound⟩ := h.calm hcode rfl
    refine .of_calm hb hvm hsound (by split <;> rfl) ?_
    split
    · exact fun _ _ => rfl
    · intro hex
      simp only [View.setCode, hguards, not_topExclusive hk] at hex
      cases hex
  | dropFlock ok hcall =>
    obtain ⟨g, hguards, hk⟩ := h.body.calling (by rw [hcall]; exact nofun)
    refine ⟨hb, fun hex => ?_, fun h1 h2 => ?_, h.quiet⟩
    · simp only [hguards, not_topExclusive hk] at hex
      cases hex
    · exact absurd (hcall.symm.trans (h.waiting h1 h2).2.1) (nomatch ·)
  | dropGuard ok hcall hcode hguards =>
    refine ⟨hb, fun hex hc hsound => ?_, ?_, ?_⟩
    · rw [dropGuard_code] at hsound
      refine held_dropGuard (hguards ▸ h.body.nested) (fun ht => ?_) hex hc
      exact h.truthful (hguards ▸ ht) hcall hsound
    · rw [dropGuard_code]
      intro h1 h2
      have := h.not_inVm (by rw [hcode]; exact nofun) (by rw [hcode]; exact nofun) h1
      rw [this] at h2
      cases h2
    · rw [dropGuard_code]
      exact h.quiet
  | deferred ok hcall hcode hguards hnext =>
    refine h.of_code hb rfl rfl rfl rfl (by rw [hcode]; exact nofun) (by rw [hcode]; exact nofun) fun _ => ?_
    have := quiet_body_append (rfl : quietUntilWait true [] = true)
    simpa only [List.append_nil] using this _
  | plain ok hcall hcode' hop =>
    rename_i op rest
    cases hq : op.quiet with
    | true =>
      refine hcode hb hcode' hq ?_ ?_ rfl rfl rfl rfl fun hr => ?_
      · rintro rfl
        cases hop
      · rintro rfl
        cases hop
      · cases ok with
        | true => exact hr
        | false => rfl
    | false =>
      obtain ⟨hvm, hsound⟩ := h.calm hcode' hq
      exact .of_calm hb hvm hsound rfl fun hex hc => h.truthful hex hc hsound
  | acquireLock ok hcall hcode' =>
    obtain ⟨hvm, hsound⟩ := h.calm hcode' rfl
    refine .of_calm hb hvm hsound (by split <;> rfl) ?_
    split
    · intro hex _
      simpa [View.setCode, topExclusive] using hex
    · exact fun hex hc => h.truthful hex hc hsound
  | upgrade ok hcall hcode' hguards hk =>
    obtain ⟨hvm, hsound⟩ := h.calm hcode' rfl
    exact .of_calm hb hvm hsound rfl fun _ hc => (nomatch hc)
  | upgradeNop ok hcall hcode' hguards hk =>
    obtain ⟨hvm, hsound⟩ := h.calm hcode' rfl
    refine .of_calm hb hvm hsound rfl fun _ _ => ?_
    exact h.truthful (by simp [topExclusive, hguards, hk]) hcall hsound
  | dropInner ok hcall hcode' hguards =>
    obtain ⟨hvm, hsound⟩ := h.calm hcode' rfl
    refine .of_calm hb hvm hsound (by rw [View.setCode, dropGuard_code]) fun hex hc => ?_
    refine held_dropGuard (hguards ▸ h.body.nested) (fun ht => ?_) hex hc
    exact h.truthful (hguards ▸ ht) hcall hsound
  | add ok hcall hcode' | remove ok hcall hcode' | waitForVmStatus ok hcall hcode' =>
    exact hcode hb hcode' rfl nofun nofun rfl rfl rfl rfl id
  | callNow ok hcall hcode' =>
    exact hcode hb hcode' rfl nofun nofun rfl rfl rfl rfl fun hq => quiet_called_append hq _
  | forkVm hcall hcode' =>
    obtain ⟨_, hsound⟩ := h.calm hcode' rfl
    have hcheck := h.body.passes hcode'
    simp only [writerCheck, Bool.and_eq_true, Bool.or_eq_true, Bool.not_eq_true', beq_iff_eq] at hcheck
    refine ⟨hb, fun hex hc _ => h.truthful hex hc hsound, fun _ hw => ?_, fun _ => quiet_of_waits hcheck.1⟩
    obtain ⟨hex, hhead⟩ := hcheck.2.resolve_left fun hf => absurd (hf.symm.trans hw) (nomatch ·)
    exact ⟨hex, hcall, Or.inl hhead⟩
  | fails hcall hcode' hop =>
    have hsame : v.proc.vm.phase.inVm = true → v.proc.vm.writable = false := by
      intro hvm
      rcases hop with ⟨w, rfl⟩ | ⟨w, rfl⟩ | rfl
      · exact absurd hvm (Bool.eq_false_iff.1 (h.calm hcode' rfl).1)
      · exact absurd hvm (Bool.eq_false_iff.1 (h.calm hcode' rfl).1)
      · exact hcond rfl (by rw [hcode']; rfl) hvm
    refine ⟨hb, h.truthful, fun h1 h2 => ?_, fun _ => rfl⟩
    exact absurd h2 (Bool.eq_false_iff.1 (hsame h1))
  | waitpid hcall hcode' hvm =>
    have hsound : v.proc.vm.phase.sound = true := by rw [hvm]; rfl
    exact .of_calm hb (by rw [hvm]; rfl) hsound rfl fun hex hc => h.truthful hex hc hsound
  | startVm hcall hcode' =>
    obtain ⟨_, hsound⟩ := h.calm hcode' rfl
    have hcheck := h.body.passes hcode'
    simp only [writerCheck, Bool.or_eq_true, Bool.not_eq_true'] at hcheck
    refine ⟨hb, fun hex hc _ => h.truthful hex hc hsound, fun _ hw => ?_, fun _ => rfl⟩
    exact ⟨hcheck.resolve_left (fun hf => absurd (hf.symm.trans hw) (nomatch ·)), hcall, Or.inr rfl⟩
  | exit ok hcall hcode' hvm =>
    refine .of_calm hb (by rw [hvm]; rfl) (by rw [hvm]; rfl) rfl fun hex => ?_
    cases hex
  | waitForNfsServer ok hcall hcode' =>
    refine hcode hb hcode' rfl nofun nofun rfl rfl rfl rfl fun hq => ?_
    cases ok with
    | true => exact hq
    | false => rfl
  | sendQuitCmd ok hcall hcode' =>
    refine hcode hb hcode' rfl nofun nofun rfl rfl rfl rfl fun hq => ?_
    cases ok with
    | true => exact hq
    | false => rfl
  | vmEnter hvm =>
    have hin : v.proc.vm.phase.inVm = true := by rw [hvm]; rfl
    refine ⟨hb, fun hex hc _ => h.truthful hex hc (by rw [hvm]; rfl), fun _ hw => h.waiting hin hw, fun _ => h.quiet (Or.inl hin)⟩
  | vmFail hvm =>
    have hin : v.proc.vm.phase.inVm = true := by rw [hvm]; rfl
    exact ⟨hb, fun _ _ hc => (nomatch hc), fun hc => (nomatch hc), fun _ => h.quiet (Or.inl hin)⟩
  | vmExit hvm =>
    refine ⟨hb, fun hex hc _ => h.truthful hex hc (by rw [hvm]; rfl), fun hc => (nomatch hc), fun hc => ?_⟩
    exact hc.elim (nomatch ·) (nomatch ·)
  | vmDropLocal hvm hguards hcall hproc =>
    obtain ⟨vm, hproc, _, hphase⟩ := hproc
    have hfailed : vm.phase.sound = false ∧ vm.phase.inVm = false := by
      rcases hphase with hp | hp <;> rw [hp] <;> exact ⟨rfl, rfl⟩
    refine ⟨hb, ?_, ?_, ?_⟩
    · rw [hproc]
      exact fun _ _ hc => absurd hc (Bool.eq_false_iff.1 hfailed.1)
    · rw [hproc]
      exact fun hc => absurd hc (Bool.eq_false_iff.1 hfailed.2)
    · rw [hproc]
      exact fun _ => h.quiet (Or.inr (by rw [hvm]; rfl))

/-! ## All guards, as long as nothing goes wrong -/

/-- A VM is forked under a guard and then waited for. -/
def lockCheck (gs : List FlockGuard) (op : Op) (rest : List Op) : Bool :=
  match op with
  | .forkVm _ => !gs.isEmpty && quietUntilWait false rest
  | .startVm _ => false
  | _ => true

theorem neutral_lockCheck : Neutral lockCheck where
  idle := by
    intro op hop gs rest
    cases op <;> first | rfl | cases hop
  waitpid := fun _ _ => rfl
  insideVm := fun _ _ => rfl

/-- The operations whose failure returns from the body. -/
def Op.fallible : Op → Bool
  | .call _ | .rewriteRootfs | .removeRootfs | .forkVm _ | .waitpid | .startVm _ | .sendQuitCmd => true
  | _ => false

/-- Until the body ends every guard is true, and as long as the VM process exists the body has a guard and has not come to the
end of its wait. -/
structure LockedInv (v : View) : Prop where
  body : Scoped lockCheck v
  truthful : v.proc.code ≠ [] → v.call = none → ∀ g rest, v.guards = g :: rest → v.held = some g.currentKind
  alive : v.proc.vm.phase.alive = true → v.proc.vm.phase ≠ .unwinding ∧ v.call = none ∧ v.guards ≠ [] ∧
    quietUntilWait false v.proc.code = true

theorem LockedInv.not_alive {op : Op} {rest : List Op} (h : LockedInv v) (hcode : v.proc.code = op :: rest)
    (hop : op.quiet = false) : v.proc.vm.phase.alive = false := by
  refine Bool.eq_false_iff.2 fun halive => ?_
  have hq := (h.alive halive).2.2.2
  have hw : op ≠ .waitpid := fun hw => by
    rw [hw] at hop
    cases hop
  rw [hcode, quiet_cons hw, hop] at hq
  cases hq

/-- A step of a process without a VM, that leaves it so. -/
theorem LockedInv.of_not_alive (hb : Scoped lockCheck v') (halive : v.proc.vm.phase.alive = false)
    (hvm : v'.proc.vm = v.proc.vm)
    (htrue : v'.proc.code ≠ [] → v'.call = none → ∀ g rest, v'.guards = g :: rest → v'.held = some g.currentKind) :
    LockedInv v' := by
  refine ⟨hb, htrue, fun hc => ?_⟩
  rw [hvm, halive] at hc
  cases hc

/-- An operation that leaves all but the body alone. -/
theorem LockedInv.of_code {op : Op} {rest : List Op} (h : LockedInv v) (hb : Scoped lockCheck v')
    (hcode : v.proc.code = op :: rest) (hop : op.quiet = true) (hw : op ≠ .waitpid) (hguards : v'.guards = v.guards)
    (hcall : v'.call = v.call) (hheld : v'.held = v.held) (hvm : v'.proc.vm = v.proc.vm)
    (hquiet : quietUntilWait false rest = true → quietUntilWait false v'.proc.code = true) : LockedInv v' := by
  refine ⟨hb, fun _ => ?_, ?_⟩
  · rw [hcall, hguards, hheld]
    exact h.truthful (by rw [hcode]; exact nofun)
  · rw [hvm, hcall, hguards]
    intro halive
    obtain ⟨h1, h2, h3, h4⟩ := h.alive halive
    rw [hcode, quiet_cons hw, hop, Bool.true_and] at h4
    exact ⟨h1, h2, h3, hquiet h4⟩

/-- A step keeps the invariant if no lock is lost by it: a revert to shared inside the body is granted, an operation fails only
when there is no VM process, and the VM process does not fail. -/
theorem LockedInv.step (h : LockedInv v) (hs : LocalStep granted v act v')
    (hrevert : ∀ ok, act = .step ok → v.call = some .revert → v.proc.code ≠ [] → granted .shared = true)
    (hfail : act = .step false → (∃ op rest, v.proc.code = op :: rest ∧ op.fallible = true) → v.proc.vm.phase.alive = false)
    (hvmfail : act ≠ .vm .fail) : LockedInv v' := by
  have hb := h.body.step neutral_lockCheck hs
  have hcalling : v.call ≠ none → v.proc.vm.phase.alive = false := fun hc =>
    Bool.eq_false_iff.2 fun halive => hc (h.alive halive).2.1
  cases hs with
  | upgradeFlock ok hcall =>
    refine .of_not_alive hb (hcalling (by rw [hcall]; exact nofun)) (by split <;> rfl) ?_
    split
    · rintro _ _ g rest hg
      cases hg
      rfl
    · exact fun hc => absurd rfl hc
  | dropFlock ok hcall =>
    obtain ⟨g, hguards, hk⟩ := h.body.calling (by rw [hcall]; exact nofun)
    refine .of_not_alive hb (hcalling (by rw [hcall]; exact nofun)) rfl fun hcode _ g' rest hg => ?_
    rw [hguards] at hg
    cases hg
    simp only [hrevert ok rfl hcall hcode, hk, if_true]
  | dropGuard ok hcall hcode hguards =>
    refine ⟨hb, ?_, ?_⟩
    · rw [dropGuard_code]
      exact fun hc => absurd hcode hc
    · rw [dropGuard_code]
      intro halive
      have := (h.alive halive).2.2.2
      rw [hcode] at this
      cases this
  | deferred ok hcall hcode hguards hnext =>
    refine ⟨hb, fun _ _ g rest hg => absurd (hguards.symm.trans hg) (nomatch ·), fun halive => ?_⟩
    have := (h.alive halive).2.2.2
    rw [hcode] at this
    cases this
  | plain ok hcall hcode hop =>
    rename_i op rest
    cases hq : op.quiet with
    | false =>
      refine .of_not_alive hb (h.not_alive hcode hq) rfl fun _ => ?_
      exact h.truthful (by rw [hcode]; exact nofun)
    | true =>
      cases ok with
      | true =>
        refine h.of_code hb hcode hq ?_ rfl rfl rfl rfl id
        rintro rfl
        cases hop
      | false =>
        have hfallible : op.fallible = true := by cases op <;> first | rfl | cases hop
        exact .of_not_alive hb (hfail rfl ⟨op, rest, hcode, hfallible⟩) rfl fun hc => absurd rfl hc
  | acquireLock ok hcall hcode =>
    refine .of_not_alive hb (h.not_alive hcode rfl) (by split <;> rfl) ?_
    split
    · rintro _ _ g rest hg
      cases hg
      rfl
    · exact fun hc => absurd rfl hc
  | upgrade ok hcall hcode hguards hk =>
    exact .of_not_alive hb (h.not_alive hcode rfl) rfl fun _ hc => (nomatch hc)
  | upgradeNop ok hcall hcode hguards hk =>
    refine .of_not_alive hb (h.not_alive hcode rfl) rfl fun _ _ g rest hg => ?_
    cases hg
    exact (h.truthful (by rw [hcode]; exact nofun) hcall _ _ hguards).trans (congrArg some hk)
  | dropInner ok hcall hcode hguards =>
    refine .of_not_alive hb (h.not_alive hcode rfl) (by rw [View.setCode, dropGuard_code]) fun _ hc g rest hg => ?_
    have hheld := h.truthful (by rw [hcode]; exact nofun) hcall _ _ hguards
    have hn := h.body.nested
    rw [hguards] at hn
    cases hn with
    | outermost k => cases hg
    | noop _ hk =>
      cases hg
      exact hheld.trans (congrArg some hk.symm)
    | upgraded _ _ => cases hc
  | add ok hcall hcode | remove ok hcall hcode | waitForVmStatus ok hcall hcode =>
    exact h.of_code hb hcode rfl nofun rfl rfl rfl rfl id
  | callNow ok hcall hcode =>
    exact h.of_code hb hcode rfl nofun rfl rfl rfl rfl fun hq => quiet_called_append hq _
  | forkVm hcall hcode =>
    have hcheck := h.body.passes hcode
    simp only [lockCheck, Bool.and_eq_true, Bool.not_eq_true', List.isEmpty_eq_false_iff] at hcheck
    refine ⟨hb, fun _ => h.truthful (by rw [hcode]; exact nofun), fun _ => ⟨nofun, hcall, hcheck.1, hcheck.2⟩⟩
  | fails hcall hcode hop =>
    rename_i op rest
    have hfallible : op.fallible = true := by
      rcases hop with ⟨w, rfl⟩ | ⟨w, rfl⟩ | rfl <;> rfl
    exact .of_not_alive hb (hfail rfl ⟨op, rest, hcode, hfallible⟩) rfl fun hc => absurd rfl hc
  | waitpid hcall hcode hvm =>
    have halive : v.proc.vm.phase.alive = false := by rw [hvm]; rfl
    exact .of_not_alive hb halive rfl fun _ => h.truthful (by rw [hcode]; exact nofun)
  | startVm hcall hcode => exact absurd (h.body.passes hcode) (nomatch ·)
  | exit ok hcall hcode hvm =>
    exact .of_not_alive hb (by rw [hvm]; rfl) rfl fun hc => absurd rfl hc
  | waitForNfsServer ok hcall hcode =>
    refine h.of_code hb hcode rfl nofun rfl rfl rfl rfl fun hq => ?_
    cases ok with
    | true => exact hq
    | false => rfl
  | sendQuitCmd ok hcall hcode =>
    cases ok with
    | true => exact h.of_code hb hcode rfl nofun rfl rfl rfl rfl id
    | false => exact .of_not_alive hb (hfail rfl ⟨_, _, hcode, rfl⟩) rfl fun hc => absurd rfl hc
  | vmEnter hvm =>
    refine ⟨hb, h.truthful, fun _ => ⟨nofun, ?_⟩⟩
    exact (h.alive (by rw [hvm]; rfl)).2
  | vmFail hvm => exact absurd rfl hvmfail
  | vmExit hvm => exact ⟨hb, h.truthful, fun hc => (nomatch hc)⟩
  | vmDropLocal hvm hguards hcall hproc =>
    exact absurd hvm (h.alive (by rw [hvm]; rfl)).1

end

end Anylinuxfs
