import Anylinuxfs.Lib.WaitStatus

/-!
# How the status of the VM becomes the exit code of the command

`anylinuxfs mount` is two processes of its own (`cmd_mount.rs`, `main.rs`): the supervising child, which waits for the VM process
and ends with its status, and the parent, which reads the child's pipe and, unless the child detaches, waits for the child and
ends with its status in turn. Both go through `run` and `main`.

A `MountRun` is what the two processes meet on their way: how the VM process ended, what `wait_for_nfs_server` reported, whether
another step of the child failed, and what the child wrote to the pipe.
-/

namespace Anylinuxfs

open Posix

/-- The errors that `run` tells apart: `StatusError`, a clap error (which carries the code `clap_error.exit()` ends with), and
the rest. -/
inductive AppError where
  | statusError (status : Int)
  | clapError (exitCode : Int)
  | other
  deriving DecidableEq, Repr

/-- `NfsReadyState`. -/
structure NfsReadyState where
  fslabel : Option (List Char)
  fstype : Option (List Char)
  changedToRo : Bool
  exports : List (List Char)
  deriving DecidableEq, Repr

/-- `NfsStatus`: the server is ready, or it failed, with the exit code the VM reported when it reported one. -/
inductive NfsStatus where
  | ready (state : NfsReadyState)
  | failed (exitCode : Option Int)
  deriving DecidableEq, Repr

/-- `NfsStatus::ok`. -/
def NfsStatus.ok : NfsStatus → Bool
  | .ready _ => true
  | .failed _ => false

/-- `to_exit_code`. -/
def toExitCode (status : Int) : Int :=
  if wifexited status then wexitstatus status
  else if wifsignaled status then wtermsig status + 128
  else 1

/-- `run`: the number a process hands to `process::exit`. The child of `run_mount` passes a `StatusError`'s number on as it is,
any other process converts it. -/
def run (isChild : Bool) : Except AppError Unit → Int
  | .error (.statusError status) => if isChild then status else toExitCode status
  | .error (.clapError code) => code
  | .error .other => 1
  | .ok () => 0

/-- `main`: how the process ends, as its parent sees it. Returning from `main` is an exit with zero. -/
def main (isChild : Bool) (res : Except AppError Unit) : WaitStatus :=
  let code := run isChild res
  if code ≠ 0 then .ofExit code else .ofExit 0

/-- `ECHILD`. -/
def echild : Int := 10

/-- `wait_for_vm_status`, on the result of waitpid(2): the errno, or how the process ended. -/
def waitForVmStatus : Except Int WaitStatus → Except AppError (Option Int)
  | .error errno => if errno = echild then .ok none else .error .other
  | .ok s => .ok (some s.raw)

/-- What the processes of one `anylinuxfs mount` meet. -/
structure MountRun where
  /-- How the VM process ends. The child has not waited for it before, so its waitpid(2) reports this. -/
  vmStatus : WaitStatus
  /-- What `wait_for_nfs_server` returned, or `Failed(None)` in its place. -/
  nfsStatus : NfsStatus
  /-- Whether a step of `run_mount_child` other than the last one failed. No other step returns a `StatusError`. -/
  failedStep : Bool
  /-- The lines `run_mount_child` wrote to the pipe. -/
  lines : List String
  /-- Whether `run_mount` could write its own line after a failure of the child. -/
  joinWritten : Bool

namespace MountRun

/-- `run_mount_child`, as far as its result goes: the first step that fails, or the status of the VM. -/
def runMountChild (r : MountRun) : Except AppError Unit :=
  if r.failedStep then .error .other
  else do
    match ← waitForVmStatus (.ok r.vmStatus) with
    | none => pure ()
    | some raw =>
      let status :=
        if raw = 0 then
          match r.nfsStatus with
          | .failed (some exitCode) => exitCode
          | _ => raw
        else raw
      if status ≠ 0 then throw (.statusError status)

/-- `run_mount` in the child: a failure is announced on the pipe before it is returned. -/
def runMount (r : MountRun) : Except AppError Unit :=
  match r.runMountChild with
  | .error e => if r.joinWritten then .error e else .error .other
  | .ok () => .ok ()

/-- All lines the child leaves in the pipe before its end closes it. -/
def pipeLines (r : MountRun) : List String :=
  match r.runMountChild with
  | .error _ => if r.joinWritten then r.lines ++ ["join"] else r.lines
  | .ok () => r.lines

end MountRun

/-- `run_mount_parent`, on the lines of the pipe and the result of its waitpid(2). The end of the pipe is a read of zero bytes. -/
def runMountParent : List String → Except Int WaitStatus → Except AppError Unit
  | [], waited => join waited
  | cmd :: rest, waited =>
    if cmd = "join" then join waited
    else if cmd = "detach" then .ok ()
    else runMountParent rest waited
where
  /-- Wait for the child and end with its status. -/
  join : Except Int WaitStatus → Except AppError Unit
    | .error _ => .error .other
    | .ok s => if s.raw = 0 then .ok () else .error (.statusError s.raw)

/-- The exit code of the whole command. -/
def MountRun.exitCode (r : MountRun) : Int :=
  wexitstatus (main false (runMountParent r.pipeLines (.ok (main true r.runMount)))).raw

/-- The VM exited with status zero and reported no exit code other than zero. -/
def MountRun.VmSucceeded (r : MountRun) : Prop :=
  r.vmStatus.raw = 0 ∧ ∀ c, r.nfsStatus = .failed (some c) → c = 0

/-- The command succeeds exactly when the VM did, and passes a nonzero exit code of the VM on. -/
def MountRun.Propagates (r : MountRun) : Prop :=
  (r.exitCode = 0 ↔ r.VmSucceeded) ∧
    ∀ c h, r.vmStatus = .exited c h → c ≠ 0 → r.exitCode = toExitCode r.vmStatus.raw

end Anylinuxfs
