import Anylinuxfs.CommandSys
import Anylinuxfs.Lib.Reach

/-!
# What one step can do

Every invariant of the commands is about one process at a time: its body, its guards, its lock. `View` is that part of a state,
and `LocalStep` says once what a step can do to the view of its own process, given which requests on the lock would be granted;
`view_of_ne` says that it does nothing to the views of the others.
-/

namespace Anylinuxfs

open Flock Transition

/-- What concerns one process: itself, its guards, the conversion it is in, and the lock that its description holds. -/
structure View where
  proc : Proc
  guards : List FlockGuard
  call : Option Conversion
  held : Option FlockKind

namespace View

/-- Change what is left of the body. -/
def setCode (v : View) (code : List Op) : View := { v with proc := { v.proc with code := code } }

/-- Change the VM. -/
def setVm (v : View) (vm : Vm) : View := { v with proc := { v.proc with vm := vm } }

/-- Drop the innermost guard `g`, over the guards `rest`. -/
def dropGuard (v : View) (g : FlockGuard) (rest : List FlockGuard) : View :=
  match g.revertFlag with
  | none => { v with guards := rest }
  | some .unlock => { v with guards := rest, held := none }
  | some .shared => { v with guards := rest, held := none, call := some .revert }

end View

/-- The calls that may fail and change nothing. -/
def Op.plain : Op → Bool
  | .call _ | .rewriteRootfs | .removeRootfs => true
  | _ => false

/-- What a step can do to the view of its process, when the requests `granted` would be granted. -/
inductive LocalStep (granted : FlockKind → Bool) : View → Act → View → Prop where
  | upgradeFlock {v : View} (ok : Bool) (hcall : v.call = some .upgrade) :
      LocalStep granted v (.step ok) (if granted .exclusive
        then ({ v with guards := ⟨.exclusive, some .shared⟩ :: v.guards, call := none, held := some .exclusive } : View).setCode
          v.proc.code.tail
        else ({ v with call := none } : View).setCode [])
  | dropFlock {v : View} (ok : Bool) (hcall : v.call = some .revert) :
      LocalStep granted v (.step ok) { v with call := none, held := if granted .shared then some .shared else v.held }
  | dropGuard {v : View} (ok : Bool) {g : FlockGuard} {rest : List FlockGuard} (hcall : v.call = none)
      (hcode : v.proc.code = []) (hguards : v.guards = g :: rest) : LocalStep granted v (.step ok) (v.dropGuard g rest)
  | deferred {v : View} (ok : Bool) {action : Action} {d : Deferred Action} (hcall : v.call = none)
      (hcode : v.proc.code = []) (hguards : v.guards = []) (hnext : v.proc.deferred.dropNext = some (action, d)) :
      LocalStep granted v (.step ok) { v with proc := { v.proc with code := action.body, deferred := d } }
  | plain {v : View} (ok : Bool) {op : Op} {rest : List Op} (hcall : v.call = none) (hcode : v.proc.code = op :: rest)
      (hop : op.plain = true) : LocalStep granted v (.step ok) (v.setCode (if ok then rest else []))
  | acquireLock {v : View} (ok : Bool) {kind : FlockKind} {rest : List Op} (hcall : v.call = none)
      (hcode : v.proc.code = .acquireLock kind :: rest) :
      LocalStep granted v (.step ok) (if granted kind
        then ({ v with guards := ⟨kind, some .unlock⟩ :: v.guards, held := some kind } : View).setCode rest
        else v.setCode [])
  | upgrade {v : View} (ok : Bool) {g : FlockGuard} {outer : List FlockGuard} {rest : List Op} (hcall : v.call = none)
      (hcode : v.proc.code = .upgrade :: rest) (hguards : v.guards = g :: outer) (hk : g.currentKind ≠ .exclusive) :
      LocalStep granted v (.step ok) { v with held := none, call := some .upgrade }
  | upgradeNop {v : View} (ok : Bool) {g : FlockGuard} {outer : List FlockGuard} {rest : List Op} (hcall : v.call = none)
      (hcode : v.proc.code = .upgrade :: rest) (hguards : v.guards = g :: outer) (hk : g.currentKind = .exclusive) :
      LocalStep granted v (.step ok) (({ v with guards := ⟨.exclusive, none⟩ :: v.guards } : View).setCode rest)
  | dropInner {v : View} (ok : Bool) {g : FlockGuard} {outer : List FlockGuard} {rest : List Op} (hcall : v.call = none)
      (hcode : v.proc.code = .dropInner :: rest) (hguards : v.guards = g :: outer) :
      LocalStep granted v (.step ok) ((v.dropGuard g outer).setCode rest)
  | add {v : View} (ok : Bool) {action : Action} {rest : List Op} (hcall : v.call = none)
      (hcode : v.proc.code = .add action :: rest) :
      LocalStep granted v (.step ok) { v with proc := { v.proc with
        code := rest, deferred := (v.proc.deferred.add action).2,
        ids := Function.update v.proc.ids action (v.proc.deferred.add action).1 } }
  | remove {v : View} (ok : Bool) {action : Action} {rest : List Op} (hcall : v.call = none)
      (hcode : v.proc.code = .remove action :: rest) :
      LocalStep granted v (.step ok) { v with proc := { v.proc with
        code := rest, deferred := (v.proc.deferred.remove (v.proc.ids action)).2 } }
  | callNow {v : View} (ok : Bool) {action : Action} {rest : List Op} (hcall : v.call = none)
      (hcode : v.proc.code = .callNow action :: rest) :
      LocalStep granted v (.step ok) { v with proc := { v.proc with
        code := ((v.proc.deferred.callNow (v.proc.ids action)).1.elim [] Action.body) ++ rest,
        deferred := (v.proc.deferred.callNow (v.proc.ids action)).2 } }
  | forkVm {v : View} {writable : Bool} {rest : List Op} (hcall : v.call = none)
      (hcode : v.proc.code = .forkVm writable :: rest) :
      LocalStep granted v (.step true) ((v.setVm ⟨.starting, writable, v.guards, false⟩).setCode rest)
  | fails {v : View} {op : Op} {rest : List Op} (hcall : v.call = none) (hcode : v.proc.code = op :: rest)
      (hop : (∃ w, op = .forkVm w) ∨ (∃ w, op = .startVm w) ∨ op = .waitpid) :
      LocalStep granted v (.step false) (v.setCode [])
  | waitpid {v : View} {rest : List Op} (hcall : v.call = none) (hcode : v.proc.code = .waitpid :: rest)
      (hvm : v.proc.vm.phase = .ended false) : LocalStep granted v (.step true) (v.setCode rest)
  | startVm {v : View} {writable : Bool} {rest : List Op} (hcall : v.call = none)
      (hcode : v.proc.code = .startVm writable :: rest) :
      LocalStep granted v (.step true) ((v.setVm ⟨.running, writable, [], false⟩).setCode [.insideVm])
  | exit {v : View} (ok : Bool) {rest : List Op} (hcall : v.call = none) (hcode : v.proc.code = .insideVm :: rest)
      (hvm : v.proc.vm.phase = .ended false) :
      LocalStep granted v (.step ok) { v with
        guards := [], held := none, proc := { v.proc with code := [], deferred := v.proc.deferred.removeAll } }
  | waitForNfsServer {v : View} (ok : Bool) {rest : List Op} (hcall : v.call = none)
      (hcode : v.proc.code = .waitForNfsServer :: rest) :
      LocalStep granted v (.step ok) (v.setCode (if ok then rest else mountNotReady))
  | sendQuitCmd {v : View} (ok : Bool) {rest : List Op} (hcall : v.call = none)
      (hcode : v.proc.code = .sendQuitCmd :: rest) :
      LocalStep granted v (.step ok) { v with proc := { v.proc with
        code := if ok then rest else [], events := v.proc.events ++ [.sendQuitCmd] } }
  | waitForVmStatus {v : View} (ok : Bool) {rest : List Op} (hcall : v.call = none)
      (hcode : v.proc.code = .waitForVmStatus :: rest) :
      LocalStep granted v (.step ok) { v with proc := { v.proc with
        code := rest, events := v.proc.events ++ [.waitForVmStatus v.proc.vm.phase.over] } }
  | vmEnter {v : View} (hvm : v.proc.vm.phase = .starting) :
      LocalStep granted v (.vm .enter) (v.setVm { v.proc.vm with phase := .running })
  | vmFail {v : View} (hvm : v.proc.vm.phase = .starting) :
      LocalStep granted v (.vm .fail) (v.setVm { v.proc.vm with phase := .unwinding })
  | vmDropLocal {v v' : View} (hvm : v.proc.vm.phase = .unwinding) (hguards : v'.guards = v.guards) (hcall : v'.call = v.call)
      (hproc : ∃ vm : Vm, v'.proc = { v.proc with vm := vm } ∧ vm.writable = v.proc.vm.writable ∧
        (vm.phase = .unwinding ∨ vm.phase = .ended true)) : LocalStep granted v (.vm .dropLocal) v'
  | vmExit {v : View} (hvm : v.proc.vm.phase = .running) :
      LocalStep granted v (.vm .exit) (v.setVm { v.proc.vm with phase := .ended false })

namespace CommandSys

variable {P : Type} [DecidableEq P]

/-- The view of a process. -/
def view (s : CommandSys P) (p : P) : View := ⟨s.proc p, s.locks.guards p, s.locks.call p, s.locks.table.heldBy p⟩

/-- The requests of a process that would be granted now. -/
def grants (s : CommandSys P) (p : P) (k : FlockKind) : Bool := (s.locks.flockNb p k).isSome

/-- A change of a process is seen by it. -/
@[simp] theorem view_setProc_self (s : CommandSys P) (p : P) (pr : Proc) :
    (s.setProc p pr).view p = { s.view p with proc := pr } := by
  simp [view, setProc]

/-- Another process does not see it. -/
@[simp] theorem view_setProc_of_ne (s : CommandSys P) {p q : P} (pr : Proc) (h : q ≠ p) : (s.setProc p pr).view q = s.view q := by
  simp [view, setProc, h]

/-- A change of the code of a process is seen by it. -/
@[simp] theorem view_setCode_self (s : CommandSys P) (p : P) (code : List Op) :
    (s.setCode p code).view p = (s.view p).setCode code := by
  rw [setCode, view_setProc_self]
  rfl

/-- Another process does not see the change of the code. -/
@[simp] theorem view_setCode_of_ne (s : CommandSys P) {p q : P} (code : List Op) (h : q ≠ p) :
    (s.setCode p code).view q = s.view q := by
  simp [setCode, h]

/-- A change of the VM process is seen by the one that waits for it. -/
@[simp] theorem view_setVm_self (s : CommandSys P) (p : P) (vm : Vm) : (s.setVm p vm).view p = (s.view p).setVm vm := by
  rw [setVm, view_setProc_self]
  rfl

/-- Another process does not see the change of the VM process. -/
@[simp] theorem view_setVm_of_ne (s : CommandSys P) {p q : P} (vm : Vm) (h : q ≠ p) : (s.setVm p vm).view q = s.view q := by
  simp [setVm, h]

/-! ## The operations on the lock -/

section

variable (s : CommandSys P) {p q : P}

/-- The process that is granted a lock holds it. -/
theorem view_flockNb_self {k : FlockKind} {l : LockSys P} (h : s.locks.flockNb p k = some l) :
    (s.setLocks l).view p = { s.view p with held := some k } := by
  obtain ⟨t, ht, rfl⟩ := Option.map_eq_some_iff.1 h
  simp [view, setLocks, Table.heldBy_tryLock_self ht]

/-- Nobody else holds anything by the lock that is granted. -/
theorem view_flockNb_of_ne {k : FlockKind} {l : LockSys P} (h : s.locks.flockNb p k = some l) (hne : q ≠ p) :
    (s.setLocks l).view q = s.view q := by
  obtain ⟨t, ht, rfl⟩ := Option.map_eq_some_iff.1 h
  simp [view, setLocks, Table.heldBy_tryLock_of_ne ht hne]

/-- The process that drops a guard is left with the others. -/
theorem view_dropGuard_self (g : FlockGuard) (rest : List FlockGuard) :
    (s.setLocks (s.locks.dropGuard p g rest)).view p = (s.view p).dropGuard g rest := by
  unfold LockSys.dropGuard View.dropGuard
  cases g.revertFlag with
  | none => simp [view, setLocks]
  | some flag => cases flag <;> simp [view, setLocks, LockSys.unlock, LockSys.setCall]

/-- No other process loses a guard. -/
theorem view_dropGuard_of_ne (g : FlockGuard) (rest : List FlockGuard) (h : q ≠ p) :
    (s.setLocks (s.locks.dropGuard p g rest)).view q = s.view q := by
  unfold LockSys.dropGuard
  cases g.revertFlag with
  | none => simp [view, setLocks, h]
  | some flag => cases flag <;> simp [view, setLocks, LockSys.unlock, LockSys.setCall, h]

/-- A lock that is acquired makes a guard, one that is refused makes none. -/
theorem view_acquireLock_self (kind : FlockKind) :
    (s.setLocks (s.locks.acquireLock p kind)).view p = if s.grants p kind
      then { s.view p with guards := ⟨kind, some .unlock⟩ :: s.locks.guards p, held := some kind } else s.view p := by
  unfold LockSys.acquireLock grants
  cases h : s.locks.flockNb p kind with
  | none => rfl
  | some l =>
    obtain ⟨t, ht, rfl⟩ := Option.map_eq_some_iff.1 h
    simp [view, setLocks, LockSys.pushGuard, Table.heldBy_tryLock_self ht]

/-- No other process gets a guard. -/
theorem view_acquireLock_of_ne (kind : FlockKind) (hne : q ≠ p) :
    (s.setLocks (s.locks.acquireLock p kind)).view q = s.view q := by
  unfold LockSys.acquireLock
  cases h : s.locks.flockNb p kind with
  | none => rfl
  | some l =>
    obtain ⟨t, ht, rfl⟩ := Option.map_eq_some_iff.1 h
    simp [view, setLocks, LockSys.pushGuard, Table.heldBy_tryLock_of_ne ht hne, hne]

/-- An upgrade drops the shared lock first, unless the guard is exclusive already. -/
theorem view_upgrade_self (g : FlockGuard) :
    (s.setLocks (s.locks.upgrade p g)).view p = if g.currentKind = .exclusive
      then { s.view p with guards := ⟨.exclusive, none⟩ :: s.locks.guards p }
      else { s.view p with held := none, call := some .upgrade } := by
  unfold LockSys.upgrade
  split <;> simp [view, setLocks, LockSys.pushGuard, LockSys.unlock, LockSys.setCall]

/-- No other process sees the beginning of an upgrade. -/
theorem view_upgrade_of_ne (g : FlockGuard) (hne : q ≠ p) : (s.setLocks (s.locks.upgrade p g)).view q = s.view q := by
  unfold LockSys.upgrade
  split <;> simp [view, setLocks, LockSys.pushGuard, LockSys.unlock, LockSys.setCall, hne]

/-- The second half of an upgrade makes the guard exclusive if the lock is granted. -/
theorem view_upgradeFlock_self :
    (s.setLocks (s.locks.upgradeFlock p)).view p = if s.grants p .exclusive
      then { s.view p with guards := ⟨.exclusive, some .shared⟩ :: s.locks.guards p, call := none, held := some .exclusive }
      else { s.view p with call := none } := by
  unfold LockSys.upgradeFlock grants
  cases h : s.locks.flockNb p .exclusive with
  | none => simp [view, setLocks, LockSys.setCall]
  | some l =>
    obtain ⟨t, ht, rfl⟩ := Option.map_eq_some_iff.1 h
    simp [view, setLocks, LockSys.pushGuard, LockSys.setCall, Table.heldBy_tryLock_self ht]

/-- No other process sees the end of an upgrade. -/
theorem view_upgradeFlock_of_ne (hne : q ≠ p) : (s.setLocks (s.locks.upgradeFlock p)).view q = s.view q := by
  unfold LockSys.upgradeFlock
  cases h : s.locks.flockNb p .exclusive with
  | none => simp [view, setLocks, LockSys.setCall, hne]
  | some l =>
    obtain ⟨t, ht, rfl⟩ := Option.map_eq_some_iff.1 h
    simp [view, setLocks, LockSys.pushGuard, LockSys.setCall, Table.heldBy_tryLock_of_ne ht hne, hne]

/-- The second half of a downgrade leaves no call behind, whether the lock is granted or not. -/
theorem view_dropFlock_self :
    (s.setLocks (s.locks.dropFlock p)).view p =
      { s.view p with call := none, held := if s.grants p .shared then some .shared else s.locks.table.heldBy p } := by
  unfold LockSys.dropFlock grants
  cases h : s.locks.flockNb p .shared with
  | none => simp [view, setLocks, LockSys.setCall]
  | some l =>
    obtain ⟨t, ht, rfl⟩ := Option.map_eq_some_iff.1 h
    simp [view, setLocks, LockSys.setCall, Table.heldBy_tryLock_self ht]

/-- No other process sees the end of a downgrade. -/
theorem view_dropFlock_of_ne (hne : q ≠ p) : (s.setLocks (s.locks.dropFlock p)).view q = s.view q := by
  unfold LockSys.dropFlock
  cases h : s.locks.flockNb p .shared with
  | none => simp [view, setLocks, LockSys.setCall, hne]
  | some l =>
    obtain ⟨t, ht, rfl⟩ := Option.map_eq_some_iff.1 h
    simp [view, setLocks, LockSys.setCall, Table.heldBy_tryLock_of_ne ht hne, hne]

end

/-! ## Steps -/

/-- The locals of a VM process are its own. -/
theorem view_vmDropLocal_of_ne (s : CommandSys P) {p q : P} (h : q ≠ p) : (s.vmDropLocal p).view q = s.view q := by
  unfold vmDropLocal
  simp only
  split
  · rw [view_setVm_of_ne _ _ h]
    cases hf : s.locks.flockNb p .shared with
    | none => rfl
    | some l => exact view_flockNb_of_ne s hf h
  · have hunlock : (s.setLocks (s.locks.unlock p)).view q = s.view q := by simp [view, setLocks, LockSys.unlock, h]
    split
    · exact view_setVm_of_ne _ _ h
    · split
      · exact view_setVm_of_ne _ _ h
      · rw [view_setVm_of_ne _ _ h, hunlock]
      · rw [view_setVm_of_ne _ _ h, hunlock]

/-- What a process runs changes nothing that another one sees. -/
theorem view_exec_of_ne {s s' : CommandSys P} {p q : P} {ok : Bool} {op : Op} {rest : List Op}
    (hs : s.exec p ok op rest = some s') (h : q ≠ p) : s'.view q = s.view q := by
  cases op with
  | call c | rewriteRootfs | removeRootfs | waitForNfsServer =>
    cases hs
    exact view_setCode_of_ne _ _ h
  | acquireLock kind =>
    cases hs
    rw [view_setCode_of_ne _ _ h, view_acquireLock_of_ne s kind h]
  | upgrade =>
    simp only [exec] at hs
    split at hs
    · cases hs
      rw [view_setCode_of_ne _ _ h, view_upgrade_of_ne s _ h]
    · cases hs
  | dropInner =>
    simp only [exec] at hs
    split at hs
    · cases hs
      rw [view_setCode_of_ne _ _ h, view_dropGuard_of_ne s _ _ h]
    · cases hs
  | add action | remove action | forkVm w | startVm w | sendQuitCmd | waitForVmStatus =>
    cases hs
    exact view_setProc_of_ne _ _ h
  | callNow action =>
    simp only [exec] at hs
    split at hs
    · cases hs
      exact view_setProc_of_ne _ _ h
    · cases hs
      exact view_setProc_of_ne _ _ h
  | waitpid =>
    simp only [exec] at hs
    split at hs
    · split at hs
      · cases hs
        exact view_setCode_of_ne _ _ h
      · cases hs
    · cases hs
      exact view_setCode_of_ne _ _ h
  | insideVm =>
    simp only [exec] at hs
    split at hs
    · cases hs
      simp [exit, view, setLocks, setProc, LockSys.unlock, h]
    · cases hs

/-- A step changes nothing of the other processes. -/
theorem view_of_ne {s s' : CommandSys P} {a : P × Act} {q : P} (hs : s.step a = some s') (h : q ≠ a.1) :
    s'.view q = s.view q := by
  obtain ⟨p, act⟩ := a
  cases act with
  | step ok =>
    simp only [step, procStep] at hs
    split at hs
    · cases hs
      rw [finishUpgrade, view_setCode_of_ne _ _ h, view_upgradeFlock_of_ne s h]
    · cases hs
      exact view_dropFlock_of_ne s h
    · split at hs
      · unfold dropLocal at hs
        split at hs
        · cases hs
          exact view_dropGuard_of_ne s _ _ h
        · split at hs
          · cases hs
            exact view_setProc_of_ne _ _ h
          · cases hs
      · exact view_exec_of_ne hs h
  | vm move =>
    simp only [step, vmStep] at hs
    split at hs
    · cases hs
      exact view_setVm_of_ne _ _ h
    · cases hs
      exact view_setVm_of_ne _ _ h
    · cases hs
      exact view_vmDropLocal_of_ne s h
    · cases hs
      exact view_setVm_of_ne _ _ h
    · cases hs

/-- A VM process that unwinds makes a step that its owner can describe alone. -/
theorem local_vmDropLocal (s : CommandSys P) {p : P} (hvm : (s.proc p).vm.phase = .unwinding) :
    LocalStep (s.grants p) (s.view p) (.vm .dropLocal) ((s.vmDropLocal p).view p) := by
  unfold vmDropLocal
  simp only
  split
  · rw [view_setVm_self]
    cases hf : s.locks.flockNb p .shared with
    | none => exact .vmDropLocal hvm rfl rfl ⟨_, rfl, rfl, Or.inl hvm⟩
    | some l =>
      rw [Option.getD_some, view_flockNb_self s hf]
      exact .vmDropLocal hvm rfl rfl ⟨_, rfl, rfl, Or.inl hvm⟩
  · split
    · rw [view_setVm_self]
      exact .vmDropLocal hvm rfl rfl ⟨_, rfl, rfl, Or.inr rfl⟩
    · split
      all_goals
        rw [view_setVm_self]
        exact .vmDropLocal hvm rfl rfl ⟨_, rfl, rfl, Or.inl hvm⟩

/-- What a process runs is a step that it can describe alone. -/
theorem local_exec {s s' : CommandSys P} {p : P} {ok : Bool} {op : Op} {rest : List Op} (hcall : s.locks.call p = none)
    (hcode : (s.proc p).code = op :: rest) (hs : s.exec p ok op rest = some s') :
    LocalStep (s.grants p) (s.view p) (.step ok) (s'.view p) := by
  cases op with
  | call c | rewriteRootfs | removeRootfs =>
    cases hs
    rw [view_setCode_self]
    exact .plain ok hcall hcode rfl
  | acquireLock kind =>
    cases hs
    rw [view_setCode_self, view_acquireLock_self]
    have hlocal : LocalStep (s.grants p) (s.view p) (.step ok) _ := .acquireLock ok hcall hcode
    refine cast ?_ hlocal
    unfold grants
    split <;> rfl
  | upgrade =>
    simp only [exec] at hs
    split at hs
    · next g outer hguards =>
      cases hs
      rw [view_setCode_self, view_upgrade_self]
      by_cases hk : g.currentKind = .exclusive
      · rw [if_pos hk, if_pos hk]
        exact .upgradeNop ok hcall hcode hguards hk
      · rw [if_neg hk, if_neg hk, ← hcode]
        exact .upgrade ok hcall hcode hguards hk
    · cases hs
  | dropInner =>
    simp only [exec] at hs
    split at hs
    · next g outer hguards =>
      cases hs
      rw [view_setCode_self, view_dropGuard_self]
      exact .dropInner ok hcall hcode hguards
    · cases hs
  | add action =>
    cases hs
    rw [view_setProc_self]
    exact .add ok hcall hcode
  | remove action =>
    cases hs
    rw [view_setProc_self]
    exact .remove ok hcall hcode
  | callNow action =>
    have hlocal : LocalStep (s.grants p) (s.view p) (.step ok) _ := .callNow ok hcall hcode
    simp only [exec] at hs
    split at hs
    · next a d hcn =>
      cases hs
      rw [view_setProc_self]
      simp only [view, hcn] at hlocal
      exact hlocal
    · next d hcn =>
      cases hs
      rw [view_setProc_self]
      simp only [view, hcn] at hlocal
      exact hlocal
  | forkVm w =>
    cases hs
    rw [view_setProc_self]
    cases ok with
    | true => exact .forkVm hcall hcode
    | false => exact .fails hcall hcode (Or.inl ⟨w, rfl⟩)
  | waitpid =>
    simp only [exec] at hs
    cases ok with
    | true =>
      rw [if_pos rfl] at hs
      split at hs
      · next hvm =>
        cases hs
        rw [view_setCode_self]
        exact .waitpid hcall hcode hvm
      · cases hs
    | false =>
      rw [if_neg Bool.false_ne_true] at hs
      cases hs
      rw [view_setCode_self]
      exact .fails hcall hcode (Or.inr (Or.inr rfl))
  | startVm w =>
    cases hs
    rw [view_setProc_self]
    cases ok with
    | true => exact .startVm hcall hcode
    | false => exact .fails hcall hcode (Or.inr (Or.inl ⟨w, rfl⟩))
  | insideVm =>
    simp only [exec] at hs
    split at hs
    · next hvm =>
      cases hs
      have hview : (s.exit p).view p = { s.view p with
          guards := [], held := none, proc := { s.proc p with code := [], deferred := (s.proc p).deferred.removeAll } } := by
        simp [exit, view, setLocks, setProc, LockSys.unlock]
      rw [hview]
      exact .exit ok hcall hcode hvm
    · cases hs
  | waitForNfsServer =>
    cases hs
    rw [view_setCode_self]
    exact .waitForNfsServer ok hcall hcode
  | sendQuitCmd =>
    cases hs
    rw [view_setProc_self]
    exact .sendQuitCmd ok hcall hcode
  | waitForVmStatus =>
    cases hs
    rw [view_setProc_self]
    exact .waitForVmStatus ok hcall hcode

/-- A step is a local step of its process. -/
theorem local_of_step {s s' : CommandSys P} {p : P} {act : Act} (hs : s.step (p, act) = some s') :
    LocalStep (s.grants p) (s.view p) act (s'.view p) := by
  cases act with
  | step ok =>
    simp only [step, procStep] at hs
    split at hs
    · next hcall =>
      cases hs
      rw [finishUpgrade, view_setCode_self, view_upgradeFlock_self]
      have hlocal : LocalStep (s.grants p) (s.view p) (.step ok) _ := .upgradeFlock ok hcall
      refine cast ?_ hlocal
      unfold grants
      split <;> rfl
    · next hcall =>
      cases hs
      rw [view_dropFlock_self]
      exact .dropFlock ok hcall
    · next hcall =>
      split at hs
      · next hcode =>
        unfold dropLocal at hs
        split at hs
        · next g rest hguards =>
          cases hs
          rw [view_dropGuard_self]
          exact .dropGuard ok hcall hcode hguards
        · next hguards =>
          split at hs
          · next action d hnext =>
            cases hs
            rw [view_setProc_self]
            exact .deferred ok hcall hcode hguards hnext
          · cases hs
      · next op rest hcode => exact local_exec hcall hcode hs
  | vm move =>
    simp only [step, vmStep] at hs
    split at hs
    · next hvm =>
      cases hs
      rw [view_setVm_self]
      exact .vmEnter hvm
    · next hvm =>
      cases hs
      rw [view_setVm_self]
      exact .vmFail hvm
    · next hvm =>
      cases hs
      exact local_vmDropLocal s hvm
    · next hvm =>
      cases hs
      rw [view_setVm_self]
      exact .vmExit hvm
    · cases hs

/-- What holds of the view of a process at the beginning and is kept by its local steps holds in every state that is reached. -/
theorem view_invariant {cmd : P → Command} {cond : CommandSys P → P × Act → Prop} {s : CommandSys P}
    (h : Reach step cond (init cmd) s) (p : P) (I : View → Prop) (h0 : I ((init cmd).view p))
    (hstep : ∀ s act v', I (s.view p) → cond s (p, act) → LocalStep (s.grants p) (s.view p) act v' → I v') :
    I (s.view p) := by
  refine h.invariant (fun s => I (s.view p)) h0 ?_
  rintro s ⟨q, act⟩ s' hI hcond hs
  by_cases hq : p = q
  · subst hq
    exact hstep s act _ hI hcond (local_of_step hs)
  · rw [view_of_ne hs hq]
    exact hI

/-- At the start, a process has its command and nothing else. -/
theorem view_init (cmd : P → Command) (p : P) : (init cmd).view p = ⟨.start (cmd p), [], none, none⟩ := rfl

end CommandSys

end Anylinuxfs
