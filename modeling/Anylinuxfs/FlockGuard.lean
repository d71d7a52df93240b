import Anylinuxfs.Lib.Flock
import Anylinuxfs.Lib.Reach
import Mathlib.Logic.Function.Basic

/-!
# `LockFile` and `FlockGuard`

The lock of `/tmp/anylinuxfs.lock` (`utils.rs`): any number of processes, each with its own open file description of the lock
file and a stack of guards on it. `LockFile::acquire_lock` returns the outermost guard, `FlockGuard::upgrade` an inner one, and
a drop reverts the lock as the guard's revert flag says. The borrow checker nests the guards: a second outermost guard cannot
be made while one lives, and only the innermost guard can be upgraded or dropped, so a process's guards are a stack.

A call that converts a lock is two steps here, because flock(2) drops the old lock before it tries the new one: between the
two steps of one process any other process may act (`LockSys.call` says which process is between them).
-/

namespace Anylinuxfs

open Flock

/-- `FlockKind`. -/
abbrev FlockKind := Flock.Kind

/-- The flag a guard passes to flock(2) when it is dropped: `LOCK_UN`, or `LOCK_SH | LOCK_NB`. -/
inductive RevertFlag where
  | unlock | shared
  deriving DecidableEq, Repr

/-- `FlockGuard`: what it believes is held, and what its drop reverts to; no flag makes the drop a no-op. -/
structure FlockGuard where
  currentKind : FlockKind
  revertFlag : Option RevertFlag
  deriving DecidableEq, Repr

/-- The conversion a process is in the middle of: the old lock is dropped, the new one is not yet tried. -/
inductive Conversion where
  | upgrade | revert
  deriving DecidableEq, Repr

/-- The lock file and the processes that use it. `guards p` is the stack of live guards of the process `p`, innermost first. -/
structure LockSys (P : Type) where
  table : Table P Unit
  guards : P → List FlockGuard
  call : P → Option Conversion

/-- What a process does to the lock file. `upgradeFlock` and `dropFlock` are the second halves of the conversions that
`upgrade` and `drop` begin. -/
inductive LockOp where
  | acquireLock (kind : FlockKind) | upgrade | upgradeFlock | drop | dropFlock
  deriving DecidableEq, Repr

namespace LockSys

variable {P : Type} [DecidableEq P]

/-- No lock is held and no guard lives. -/
def init : LockSys P where
  table := Table.empty
  guards := fun _ => []
  call := fun _ => none

/-- The lock of the process's description is dropped. -/
def unlock (s : LockSys P) (p : P) : LockSys P := { s with table := s.table.unlock p }

/-- A new innermost guard. -/
def pushGuard (s : LockSys P) (p : P) (g : FlockGuard) : LockSys P :=
  { s with guards := Function.update s.guards p (g :: s.guards p) }

/-- Enter or leave the middle of a conversion. -/
def setCall (s : LockSys P) (p : P) (c : Option Conversion) : LockSys P :=
  { s with call := Function.update s.call p c }

/-- `flock_nb`: one non-blocking attempt on a description that holds no lock; `none` is the error. -/
def flockNb (s : LockSys P) (p : P) (k : FlockKind) : Option (LockSys P) :=
  (s.table.tryLock p () k).map (fun t => { s with table := t })

/-- `LockFile::acquire_lock`. The description holds no lock, so the attempt is atomic; a refused attempt returns the error and
changes nothing. -/
def acquireLock (s : LockSys P) (p : P) (kind : FlockKind) : LockSys P :=
  match s.flockNb p kind with
  | some s' => s'.pushGuard p ⟨kind, some .unlock⟩
  | none => s

/-- `FlockGuard::upgrade` on the innermost guard `g`: a no-op guard when `g` is exclusive, else the first half of the
conversion to exclusive. -/
def upgrade (s : LockSys P) (p : P) (g : FlockGuard) : LockSys P :=
  if g.currentKind = .exclusive then s.pushGuard p ⟨.exclusive, none⟩
  else (s.unlock p).setCall p (some .upgrade)

/-- The second half of an upgrade: an inner guard when the exclusive lock is granted, the error otherwise; the outer guard
stays as it was in both cases. -/
def upgradeFlock (s : LockSys P) (p : P) : LockSys P :=
  match s.flockNb p .exclusive with
  | some s' => (s'.setCall p none).pushGuard p ⟨.exclusive, some .shared⟩
  | none => s.setCall p none

/-- `FlockGuard::drop` of the innermost guard `g`, over the guards `rest`. A revert to shared is a conversion, of which this
is the first half. -/
def dropGuard (s : LockSys P) (p : P) (g : FlockGuard) (rest : List FlockGuard) : LockSys P :=
  let s' := { s with guards := Function.update s.guards p rest }
  match g.revertFlag with
  | none => s'
  | some .unlock => s'.unlock p
  | some .shared => (s'.unlock p).setCall p (some .revert)

/-- The second half of a revert to shared. `drop` ignores the result of the call. -/
def dropFlock (s : LockSys P) (p : P) : LockSys P :=
  match s.flockNb p .shared with
  | some s' => s'.setCall p none
  | none => s.setCall p none

/-- One step of the process `p`. An operation is enabled when the borrow checker and the process's own order of calls allow it. -/
def step (s : LockSys P) (a : P × LockOp) : Option (LockSys P) :=
  match a.2, s.call a.1, s.guards a.1 with
  | .acquireLock kind, none, [] => some (s.acquireLock a.1 kind)
  | .upgrade, none, g :: _ => some (s.upgrade a.1 g)
  | .upgradeFlock, some .upgrade, _ => some (s.upgradeFlock a.1)
  | .drop, none, g :: rest => some (s.dropGuard a.1 g rest)
  | .dropFlock, some .revert, _ => some (s.dropFlock a.1)
  | _, _, _ => none

/-- The open file description of `p` holds the lock in mode `k`. -/
def Holds (s : LockSys P) (p : P) (k : FlockKind) : Prop := ⟨p, (), k⟩ ∈ s.table

/-- Every live guard says the truth: the innermost guard's kind is held by the process's description. The outer guards are
suspended while an inner one lives, and a guard whose lock is being converted is suspended until the call returns. -/
def Truthful (s : LockSys P) : Prop :=
  ∀ p g rest, s.guards p = g :: rest → s.call p = none → s.Holds p g.currentKind

/-- An exclusive guard is the guard of the only process that has any. -/
def ExclusiveAlone (s : LockSys P) : Prop :=
  ∀ p q g, g ∈ s.guards p → g.currentKind = .exclusive → q ≠ p → s.guards q = []

end LockSys

end Anylinuxfs
