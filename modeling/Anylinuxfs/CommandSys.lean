import Anylinuxfs.Commands

/-!
# Running the commands

Any number of processes, each running its command on the one lock file, with the VM processes they fork. A step of a command
that fails empties the rest of its body; a body that has come to its end, in either way, drops its locals in reverse order of
their declaration: first the guards, innermost first, each of which reverts the lock, then the `Deferred`, whose actions run one
by one. A forked process shares the open file description of the lock file, so when it cannot become a VM and drops its copies
of the guards, it changes the lock of the process that forked it.
-/

namespace Anylinuxfs

open Flock

/-- Where a VM process is: it does not exist, it is setting up the VM, it is the VM, it failed to become one and drops its
locals, or it is over. -/
inductive VmPhase where
  | none | starting | running | unwinding
  | ended (failed : Bool)
  deriving DecidableEq, Repr

/-- The process exists. -/
def VmPhase.alive : VmPhase → Bool
  | .starting | .running | .unwinding => true
  | _ => false

/-- The process never existed, or is over. -/
def VmPhase.over : VmPhase → Bool
  | .ended _ => true
  | _ => false

/-- A VM process. `guards` are its copies of the guards at the fork, and `reverting` says that one of them is between the two
halves of its conversion. -/
structure Vm where
  phase : VmPhase
  writable : Bool
  guards : List FlockGuard
  reverting : Bool
  deriving DecidableEq, Repr

/-- What a supervising process does about its VM. `waitForVmStatus` is the beginning of the wait, with whether the VM is over
then. -/
inductive Event where
  | sendQuitCmd
  | waitForVmStatus (vmOver : Bool)
  deriving DecidableEq, Repr

/-- Every wait among the events for a VM that is not over comes after a quit command. -/
def QuitsFirst (events : List Event) : Prop :=
  ∀ before after, events = before ++ .waitForVmStatus false :: after → Event.sendQuitCmd ∈ before

/-- A process: what is left of the body of its command, its deferred actions with the identifiers of the last ones of each kind,
its VM and what it has done about it. -/
structure Proc where
  code : List Op
  deferred : Deferred Action
  ids : Action → ActionId
  vm : Vm
  events : List Event

/-- The steps of a deferred action. The clean-ups change nothing that is modelled here, and errors are ignored. -/
def Action.body : Action → List Op
  | .sendQuitCmd => [.sendQuitCmd]
  | .waitForVmStatus => [.waitForVmStatus, .waitpid]
  | _ => []

/-- A process at the beginning of its command. -/
def Proc.start (c : Command) : Proc :=
  ⟨c.body, .new, fun _ => 0, ⟨.none, false, [], false⟩, []⟩

/-- The lock file and the processes. -/
structure CommandSys (P : Type) where
  locks : LockSys P
  proc : P → Proc

/-- What a VM process does: it enters the VM, it fails to, it drops one of its guards (or completes a drop), the VM exits. -/
inductive VmMove where
  | enter | fail | dropLocal | exit
  deriving DecidableEq, Repr

/-- A step of a process, with whether it succeeds, or of its VM. -/
inductive Act where
  | step (ok : Bool)
  | vm (move : VmMove)
  deriving DecidableEq, Repr

namespace CommandSys

variable {P : Type} [DecidableEq P]

/-- Every process is at the beginning of its command. -/
def init (cmd : P → Command) : CommandSys P where
  locks := .init
  proc := fun p => .start (cmd p)

/-- Change a process. -/
def setProc (s : CommandSys P) (p : P) (pr : Proc) : CommandSys P := { s with proc := Function.update s.proc p pr }

/-- Change what is left of a body. -/
def setCode (s : CommandSys P) (p : P) (code : List Op) : CommandSys P := s.setProc p { s.proc p with code := code }

/-- Change the lock. -/
def setLocks (s : CommandSys P) (locks : LockSys P) : CommandSys P := { s with locks := locks }

/-- The second half of `upgrade`: an exclusive lock that is refused returns from the body. -/
def finishUpgrade (s : CommandSys P) (p : P) : CommandSys P :=
  (s.setLocks (s.locks.upgradeFlock p)).setCode p
    (if (s.locks.flockNb p .exclusive).isSome then (s.proc p).code.tail else [])

/-- The end of a body: the innermost guard is dropped, or else the last deferred action begins. -/
def dropLocal (s : CommandSys P) (p : P) : Option (CommandSys P) :=
  match s.locks.guards p with
  | g :: rest => some (s.setLocks (s.locks.dropGuard p g rest))
  | [] =>
    match (s.proc p).deferred.dropNext with
    | some (action, d) => some (s.setProc p { s.proc p with code := action.body, deferred := d })
    | none => none

/-- The exit of a process that became the VM: its descriptors are closed, and nothing of it is left. -/
def exit (s : CommandSys P) (p : P) : CommandSys P :=
  (s.setLocks { s.locks.unlock p with guards := Function.update s.locks.guards p [] }).setProc p
    { s.proc p with code := [], deferred := (s.proc p).deferred.removeAll }

/-- The operation `op`, before `rest`. -/
def exec (s : CommandSys P) (p : P) (ok : Bool) (op : Op) (rest : List Op) : Option (CommandSys P) :=
  let pr := s.proc p
  match op with
  | .call _ | .rewriteRootfs | .removeRootfs => some (s.setCode p (if ok then rest else []))
  | .acquireLock kind =>
    some ((s.setLocks (s.locks.acquireLock p kind)).setCode p (if (s.locks.flockNb p kind).isSome then rest else []))
  | .upgrade =>
    match s.locks.guards p with
    | g :: _ =>
      some ((s.setLocks (s.locks.upgrade p g)).setCode p (if g.currentKind = .exclusive then rest else .upgrade :: rest))
    | [] => none
  | .dropInner =>
    match s.locks.guards p with
    | g :: outer => some ((s.setLocks (s.locks.dropGuard p g outer)).setCode p rest)
    | [] => none
  | .add action =>
    some (s.setProc p { pr with
      code := rest, deferred := (pr.deferred.add action).2, ids := Function.update pr.ids action (pr.deferred.add action).1 })
  | .remove action => some (s.setProc p { pr with code := rest, deferred := (pr.deferred.remove (pr.ids action)).2 })
  | .callNow action =>
    match pr.deferred.callNow (pr.ids action) with
    | (some action, d) => some (s.setProc p { pr with code := action.body ++ rest, deferred := d })
    | (none, d) => some (s.setProc p { pr with code := rest, deferred := d })
  | .forkVm writable =>
    some (s.setProc p (if ok then { pr with code := rest, vm := ⟨.starting, writable, s.locks.guards p, false⟩ }
      else { pr with code := [] }))
  | .waitpid =>
    -- a VM process that failed exits with 1, so the check of its status fails
    if ok then if pr.vm.phase = .ended false then some (s.setCode p rest) else none
    else some (s.setCode p [])
  | .startVm writable =>
    some (s.setProc p (if ok then { pr with code := [.insideVm], vm := ⟨.running, writable, [], false⟩ }
      else { pr with code := [] }))
  | .insideVm => if pr.vm.phase = .ended false then some (s.exit p) else none
  | .waitForNfsServer => some (s.setCode p (if ok then rest else mountNotReady))
  | .sendQuitCmd =>
    some (s.setProc p { pr with code := if ok then rest else [], events := pr.events ++ [.sendQuitCmd] })
  | .waitForVmStatus =>
    some (s.setProc p { pr with code := rest, events := pr.events ++ [.waitForVmStatus pr.vm.phase.over] })

/-- A step of the process itself. -/
def procStep (s : CommandSys P) (p : P) (ok : Bool) : Option (CommandSys P) :=
  match s.locks.call p with
  | some .upgrade => some (s.finishUpgrade p)
  | some .revert => some (s.setLocks (s.locks.dropFlock p))
  | none =>
    match (s.proc p).code with
    | [] => s.dropLocal p
    | op :: rest => s.exec p ok op rest

/-- Change the VM of a process. -/
def setVm (s : CommandSys P) (p : P) (vm : Vm) : CommandSys P := s.setProc p { s.proc p with vm := vm }

/-- A VM process that failed drops the innermost of its guards, on the description that it shares. -/
def vmDropLocal (s : CommandSys P) (p : P) : CommandSys P :=
  let vm := (s.proc p).vm
  if vm.reverting then
    (s.setLocks ((s.locks.flockNb p .shared).getD s.locks)).setVm p { vm with reverting := false }
  else
    match vm.guards with
    | [] => s.setVm p { vm with phase := .ended true }
    | g :: rest =>
      match g.revertFlag with
      | none => s.setVm p { vm with guards := rest }
      | some .unlock => (s.setLocks (s.locks.unlock p)).setVm p { vm with guards := rest }
      | some .shared => (s.setLocks (s.locks.unlock p)).setVm p { vm with guards := rest, reverting := true }

/-- A step of the VM of a process. -/
def vmStep (s : CommandSys P) (p : P) (move : VmMove) : Option (CommandSys P) :=
  let vm := (s.proc p).vm
  match move, vm.phase with
  | .enter, .starting => some (s.setVm p { vm with phase := .running })
  | .fail, .starting => some (s.setVm p { vm with phase := .unwinding })
  | .dropLocal, .unwinding => some (s.vmDropLocal p)
  | .exit, .running => some (s.setVm p { vm with phase := .ended false })
  | _, _ => none

/-- One step of the system. -/
def step (s : CommandSys P) (a : P × Act) : Option (CommandSys P) :=
  match a.2 with
  | .step ok => s.procStep a.1 ok
  | .vm move => s.vmStep a.1 move

/-! ## What is asked of the system -/

/-- The process writes or removes files of the rootfs, or its VM runs on a writable root filesystem. -/
def WritesRootfs (s : CommandSys P) (p : P) : Prop :=
  (s.locks.call p = none ∧ ((s.proc p).code.head? = some .rewriteRootfs ∨ (s.proc p).code.head? = some .removeRootfs)) ∨
    ((s.proc p).vm.phase = .running ∧ (s.proc p).vm.writable = true)

/-- Nobody else holds the lock while a process writes the rootfs. -/
def RootfsExclusive (s : CommandSys P) : Prop :=
  ∀ p q, q ≠ p → s.WritesRootfs p → ∀ k, ¬s.locks.Holds q k

/-- The lock is held as long as the forked VM process exists. -/
def LockedWhileAlive (s : CommandSys P) (p : P) : Prop :=
  (s.proc p).vm.phase.alive = true → ∃ k, s.locks.Holds p k

/-- The process waits for a VM that is not over only after it has tried to tell it to quit. -/
def QuitBeforeWait (s : CommandSys P) (p : P) : Prop := QuitsFirst (s.proc p).events

end CommandSys

end Anylinuxfs
