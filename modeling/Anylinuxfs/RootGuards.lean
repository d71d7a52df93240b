import Anylinuxfs.Lib.Reach
import Anylinuxfs.Privilege
import Mathlib.Data.Fintype.Defs

/-!
# Guards in several threads

On Linux the identifiers belong to the process, but `EffectiveRootGuard` is taken by the thread that subscribes to the events of
the VM and by the main thread in `send_quit_cmd`, beside `drop_privileges` and `ElevateOnDrop` in the main thread. A step is one
call of libc, so other threads run between the calls that a guard makes. `getuid` of `acquire` is a step together with the call
that follows it: no call here changes the real user.
-/

namespace Anylinuxfs

open Posix (Creds)

/-- Where a thread is: it has no guard, is in the middle of `acquire` with what it has read, has the guard, or is in the middle of
its `Drop`. -/
inductive GuardPc where
  | outside
  | readUid (uid : Nat)
  | readGid (uid gid : Nat)
  | elevating (uid gid : Nat)
  | holding (guard : EffectiveRootGuard)
  | releasing (prevUid : Option Nat)
  deriving DecidableEq, Repr

/-- How far the main thread is: it is root, in the middle of `drop_privileges`, has dropped its privileges or failed to, is in the
middle of the `Drop` of `ElevateOnDrop`, or runs the deferred actions. -/
inductive MainPc where
  | root | dropping | dropped | failed | elevating | cleanup
  deriving DecidableEq, Repr

/-- The process. -/
structure GuardSys (T : Type) where
  creds : Creds
  main : MainPc
  threads : T → GuardPc

namespace GuardSys

variable {T : Type} [DecidableEq T]

/-- A process that sudo has started; no thread has a guard. -/
def init : GuardSys T := ⟨⟨.all 0, .all 0⟩, .root, fun _ => .outside⟩

/-- The next call of a thread. -/
def guardStep (c : Creds) : GuardPc → GuardPc × Creds
  | .outside => (.readUid c.uid.effective, c)
  | .readUid uid => (.readGid uid c.gid.effective, c)
  | .readGid uid gid =>
    if c.uid.real = 0 ∧ uid ≠ 0 then (.elevating uid gid, tryId (Creds.seteuid 0) c) else (.holding ⟨none, none⟩, c)
  | .elevating uid gid => (.holding ⟨some uid, some gid⟩, tryId (Creds.setegid 0) c)
  | .holding guard => (.releasing guard.prevUid, guard.prevGid.elim c fun gid => tryId (Creds.setegid gid) c)
  | .releasing prevUid => (.outside, prevUid.elim c fun uid => tryId (Creds.seteuid uid) c)

/-- The next call of the main thread, in a process that drops its privileges to this user and group. -/
def mainStep (uid gid : Nat) (c : Creds) : MainPc → Option (MainPc × Creds)
  | .root => some ((c.setegid gid).elim (.failed, c) (.dropping, ·))
  | .dropping => some ((c.seteuid uid).elim (.failed, c) (.dropped, ·))
  | .dropped | .failed =>
    if c.uid.real = 0 then some (.elevating, tryId (Creds.seteuid 0) c) else some (.cleanup, c)
  | .elevating => some (.cleanup, tryId (Creds.setegid 0) c)
  | .cleanup => none

/-- The state after a call of a thread. -/
def setThread (s : GuardSys T) (t : T) (r : GuardPc × Creds) : GuardSys T :=
  { s with threads := Function.update s.threads t r.1, creds := r.2 }

@[simp] theorem setThread_self (s : GuardSys T) (t : T) (r : GuardPc × Creds) : (s.setThread t r).threads t = r.1 :=
  Function.update_self ..

@[simp] theorem setThread_of_ne (s : GuardSys T) {t t' : T} (h : t' ≠ t) (r : GuardPc × Creds) :
    (s.setThread t r).threads t' = s.threads t' :=
  Function.update_of_ne h ..

/-- Who makes the next call. -/
inductive Act (T : Type) where
  | main
  | thread (t : T)
  deriving DecidableEq, Repr

/-- One step. -/
def step (uid gid : Nat) (s : GuardSys T) : Act T → Option (GuardSys T)
  | .main => (mainStep uid gid s.creds s.main).map fun r => { s with main := r.1, creds := r.2 }
  | .thread t => some (s.setThread t (guardStep s.creds (s.threads t)))

/-! ## What is asked of the guards -/

/-- The thread has made the process root and has yet to undo it. -/
def Elevates : GuardPc → Prop
  | .elevating _ _ => True
  | .holding guard => guard.prevUid.isSome
  | .releasing prevUid => prevUid.isSome
  | _ => False

/-- Once the main thread has dropped its privileges, the process acts as the invoker whenever no thread has made it root. -/
def UserRestored (uid : Nat) (s : GuardSys T) : Prop :=
  s.main = .dropped → (∀ t, ¬Elevates (s.threads t)) → s.creds.uid.effective = uid

/-- Guards are taken one after another, and the main thread changes its identifiers only while there is none. -/
def Alone (s : GuardSys T) : Act T → Prop
  | .main => ∀ t, s.threads t = .outside
  | .thread t => (∀ t', t' ≠ t → s.threads t' = .outside) ∧ s.main ≠ .dropping ∧ s.main ≠ .elevating

instance decidableAlone [Fintype T] (s : GuardSys T) : (a : Act T) → Decidable (s.Alone a)
  | .main => inferInstanceAs (Decidable (∀ _, _))
  | .thread _ => inferInstanceAs (Decidable ((∀ _, _) ∧ _))

/-- A guard holds what it promises, and what it has changed is undone when it is dropped: whoever has a guard acts as root, and
whoever has none acts as the invoker from the drop of the privileges to the clean-up, and as root in the clean-up. -/
structure Faithful (uid gid : Nat) (s : GuardSys T) : Prop where
  held : ∀ t guard, s.threads t = .holding guard → s.creds.uid.effective = 0 ∧ s.creds.gid.effective = 0
  restored : s.main = .dropped → (∀ t, s.threads t = .outside) → s.creds.uid.effective = uid ∧ s.creds.gid.effective = gid
  cleanup : s.main = .cleanup → s.creds.uid.effective = 0 ∧ s.creds.gid.effective = 0

end GuardSys

end Anylinuxfs
