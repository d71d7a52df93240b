import Anylinuxfs.Lib.Credentials
import Anylinuxfs.Rpcbind
import Anylinuxfs.Settings

/-!
# Privileges

`privilege.rs`: who the invoking user is, and how the process takes on the identifiers of that user and of root; `load_config`
(`main.rs`) as far as it is about the invoker. A function that changes identifiers is a computation over the credentials of the
process, which keeps what it has done when a later call of it fails.
-/

namespace Anylinuxfs

open Posix (Creds Ids)

/-- A part of the program that changes identifiers; the error is the text of the context. -/
abbrev PrivM := ExceptT (List Char) (StateM Creds)

/-- A call of libc with `.context(text)?`. -/
def setId (call : Creds → Option Creds) (text : String) : PrivM Unit := fun c =>
  match call c with
  | some c' => (.ok (), c')
  | none => (.error text.toList, c)

/-- A call of libc whose result is not looked at. -/
def tryId (call : Creds → Option Creds) (c : Creds) : Creds := (call c).getD c

/-- `drop_effective_privileges`. -/
def dropEffectivePrivileges (sudoUid sudoGid : Option Nat) : PrivM Unit :=
  match sudoUid, sudoGid with
  | some sudoUid, some sudoGid => do
    setId (Creds.setegid sudoGid) "Failed to setegid"
    setId (Creds.seteuid sudoUid) "Failed to seteuid"
  | _, _ => pure ()

/-- `drop_privileges`. -/
def dropPrivileges (os : HostOs) (sudoUid sudoGid : Option Nat) : PrivM Unit :=
  match os with
  | .macos =>
    match sudoUid, sudoGid with
    | some sudoUid, some sudoGid => do
      setId (Creds.setgid sudoGid) "Failed to setgid"
      setId (Creds.setuid sudoUid) "Failed to setuid"
    | _, _ => pure ()
  | .linux => dropEffectivePrivileges sudoUid sudoGid

/-- `elevate_effective_privileges`. -/
def elevateEffectivePrivileges : PrivM Unit := do
  let c ← get
  setId (Creds.seteuid c.uid.real) "Failed to seteuid"
  setId (Creds.setegid c.gid.real) "Failed to setegid"

/-- `EffectiveRootGuard`. -/
structure EffectiveRootGuard where
  prevUid : Option Nat
  prevGid : Option Nat
  deriving DecidableEq, Repr

/-- `EffectiveRootGuard::acquire`. -/
def EffectiveRootGuard.acquire (c : Creds) : EffectiveRootGuard × Creds :=
  if c.uid.real = 0 ∧ c.uid.effective ≠ 0 then
    (⟨some c.uid.effective, some c.gid.effective⟩, tryId (Creds.setegid 0) (tryId (Creds.seteuid 0) c))
  else (⟨none, none⟩, c)

/-- `Drop` of `EffectiveRootGuard`. -/
def EffectiveRootGuard.drop (guard : EffectiveRootGuard) (c : Creds) : Creds :=
  let c := guard.prevGid.elim c fun gid => tryId (Creds.setegid gid) c
  guard.prevUid.elim c fun uid => tryId (Creds.seteuid uid) c

/-- `Drop` of `ElevateOnDrop`. -/
def elevateOnDrop (c : Creds) : Creds :=
  if c.uid.real = 0 then tryId (Creds.setegid 0) (tryId (Creds.seteuid 0) c) else c

/-! ## The invoker -/

/-- `InvokerIdentity`. -/
structure InvokerIdentity where
  uid : Nat
  gid : Nat
  deriving DecidableEq, Repr

/-- `ProcInfo`. -/
structure ProcInfo where
  uid : Nat
  gid : Nat
  ppid : Nat
  deriving DecidableEq, Repr

/-- `std::iter::successors`, of which at most so many elements are taken. -/
def successors {α : Type} (succ : α → Option α) : Nat → Option α → List α
  | 0, _ | _, none => []
  | n + 1, some a => a :: successors succ n (succ a)

/-- `walk_to_invoker`, in a process of this number; `procInfo` is `get_proc_info`. -/
def walkToInvoker (procInfo : Nat → Option ProcInfo) (pid : Nat) : Except (List Char) InvokerIdentity :=
  -- `.skip(1).take(5)` looks at no element behind the sixth
  match ((successors (fun info => procInfo info.ppid) 6 (procInfo pid)).drop 1).findSome?
      (fun info => if info.uid ≠ 0 then some (⟨info.uid, info.gid⟩ : InvokerIdentity) else none) with
  | some identity => .ok identity
  | none => .error "This program must not be run directly by root; use sudo instead".toList

/-- `PrivilegeConfig`. -/
structure PrivilegeConfig where
  invokerUid : Nat
  invokerGid : Nat
  sudoUid : Option Nat
  sudoGid : Option Nat
  deriving DecidableEq, Repr

/-- The functions of `privilege.rs` that change the identifiers of the process. -/
inductive PrivCall where
  | dropPrivileges
  | dropEffectivePrivileges
  | elevateEffectivePrivileges
  | acquireGuard
  | dropGuard (guard : EffectiveRootGuard)
  | elevateOnDrop
  deriving DecidableEq, Repr

/-- The credentials after a call, for the identifiers of `PrivilegeConfig`. -/
def PrivCall.after (os : HostOs) (config : PrivilegeConfig) (c : Creds) : PrivCall → Creds
  | .dropPrivileges => ((Anylinuxfs.dropPrivileges os config.sudoUid config.sudoGid).run.run c).2
  | .dropEffectivePrivileges => ((Anylinuxfs.dropEffectivePrivileges config.sudoUid config.sudoGid).run.run c).2
  | .elevateEffectivePrivileges => (Anylinuxfs.elevateEffectivePrivileges.run.run c).2
  | .acquireGuard => (EffectiveRootGuard.acquire c).2
  | .dropGuard guard => guard.drop c
  | .elevateOnDrop => Anylinuxfs.elevateOnDrop c

end Anylinuxfs
