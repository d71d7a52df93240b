import Anylinuxfs.ExitStatus
import Anylinuxfs.Lib.Prog

/-!
# The supervising process of a mount

`run_mount_child` and the child's side of `run_mount` (`cmd_mount.rs`), with the calls that concern the termination signals, the
pipe to the parent and the end of the VM one by one, and every other call that can fail as a stage. Everything that is not
decided by the code itself (whether a step fails, what the guest reports, how the VM ends) is an answer to a call.
-/

namespace Anylinuxfs

open Interact (Prog)
open Posix (WaitStatus)

namespace Supervise

/-- The steps that can fail and have nothing to do with the signals or the pipe. -/
inductive Stage where
  | acquireLock | claimDevices | selectImage | vmImageInit | prepareVmEnvironment
  | startNetHelper | waitForFile | netHelperTryWait | prepareKeyFileForVm
  | setupVm | startVmproxy
  | dropEffectivePrivileges | registerVmRecord | elevateEffectivePrivileges | rpcbindList | setupRpcbindServices
  | dropPrivileges | redirectStdioToNull | sendQuitCmd
  deriving DecidableEq, Repr

/-- What `fork_with_pty_output` returns. -/
inductive Forked where
  | failed | vm | parent
  deriving DecidableEq, Repr

/-- What a subscription to the signals is for. -/
inductive Holder where
  | stdinForwarder | eventSession
  deriving DecidableEq, Repr

/-- Which function writes to the pipe. -/
inductive Writer where
  | runMountChild | runMount
  deriving DecidableEq, Repr

/-- The calls of the supervising process. -/
inductive Call where
  | stage (what : Stage)
  | setsid
  | fork
  | startSignalPublisher
  /-- `signal_hub.subscribe()`, which answers with the identifier -/
  | subscribe (holder : Holder)
  /-- `StdinForwarder::new`, which takes the subscription -/
  | stdinForwarderNew (id : Nat)
  /-- `vm_pwd_prompt_rx.recv()`, whose answer is not used -/
  | recvPrompt
  | waitForNfsServer
  | unsubscribe (id : Nat)
  /-- `EventSession::new`, which takes the subscription -/
  | eventSessionNew (id : Nat)
  /-- `nfs_share.mount()` and `wait_for_mount`: whether there is a mount point -/
  | mountShare
  | waitForUnmount
  /-- the end of the scope of `event_session` -/
  | dropEventSession
  | writeToPipe (writer : Writer) (line : String)
  | closePipe
  /-- the `waitpid` of `wait_for_vm_status` -/
  | waitpid
  /-- `deferred` is dropped -/
  | dropDeferred
  deriving DecidableEq, Repr

/-- The answers to a call; of a call that can fail and returns nothing, whether it succeeds. -/
@[reducible] def Call.Answer : Call → Type
  | .stage _ | .setsid | .startSignalPublisher | .stdinForwarderNew _ | .eventSessionNew _ | .mountShare | .writeToPipe _ _ => Bool
  | .fork => Forked
  | .subscribe _ => Nat
  | .waitForNfsServer => NfsStatus
  | .waitpid => Except Int WaitStatus
  | .recvPrompt | .unsubscribe _ | .waitForUnmount | .dropEventSession | .closePipe | .dropDeferred => Unit

/-- A part of the supervising process. -/
abbrev Proc := Prog Call Call.Answer AppError

/-- One call. -/
def sys (c : Call) : Proc c.Answer := Prog.perform c

/-- The operator `?` on a call that either succeeds or fails. -/
def orFail (ok : Bool) : Proc Unit := if ok then pure () else Prog.fail .other

/-- The operator `?` on a result. -/
def orThrow {α : Type} : Except AppError α → Proc α
  | .ok a => pure a
  | .error e => Prog.fail e

/-- A stage, with its operator `?`. -/
def attempt (what : Stage) : Proc Unit := do
  orFail (← sys (.stage what))

/-- `run_mount_child` up to the fork; whether the process can run in the background. -/
def beforeFork : Proc Bool := do
  attempt .acquireLock
  attempt .claimDevices
  attempt .selectImage
  attempt .vmImageInit
  attempt .prepareVmEnvironment
  let canDetach ← sys .setsid
  attempt .startNetHelper
  attempt .waitForFile
  attempt .netHelperTryWait
  attempt .prepareKeyFileForVm
  pure canDetach

/-- The VM's side of the fork. -/
def startVm : Proc Unit := do
  attempt .setupVm
  attempt .startVmproxy

/-- The loop over the passphrase callbacks. -/
def promptLoop : Nat → Proc Unit
  | 0 => pure ()
  | n + 1 => do
    sys .recvPrompt
    sys .recvPrompt
    promptLoop n

/-- The parent's side of the fork up to the report of the guest: the identifier of the first subscription, and the report. -/
def awaitNfsServer (callbacks : Nat) : Proc (Nat × NfsStatus) := do
  orFail (← sys .startSignalPublisher)
  attempt .dropEffectivePrivileges
  attempt .registerVmRecord
  attempt .elevateEffectivePrivileges
  attempt .rpcbindList
  attempt .setupRpcbindServices
  let signalSubscrId ← sys (.subscribe .stdinForwarder)
  orFail (← sys (.stdinForwarderNew signalSubscrId))
  promptLoop callbacks
  let nfsStatus ← sys .waitForNfsServer
  pure (signalSubscrId, nfsStatus)

/-- What the parent is told once the share is mounted: it may go, or it has to wait. -/
def detachOrJoin (canDetach : Bool) : Proc Unit := do
  if canDetach then
    orFail (← sys (.writeToPipe .runMountChild "detach"))
    sys .closePipe
    attempt .redirectStdioToNull
  else orFail (← sys (.writeToPipe .runMountChild "join"))

/-- The life of a mount, while `event_session` is in scope. -/
def mountSession (canDetach : Bool) : Proc Unit := do
  let mounted ← sys .mountShare
  attempt .dropPrivileges
  detachOrJoin canDetach
  if mounted then sys .waitForUnmount
  attempt .sendQuitCmd

/-- The NFS server is ready. -/
def nfsReady (canDetach : Bool) (signalSubscrId : Nat) : Proc Unit := do
  sys (.unsubscribe signalSubscrId)
  let signals ← sys (.subscribe .eventSession)
  orFail (← sys (.eventSessionNew signals))
  (mountSession canDetach).ensuring (sys .dropEventSession)

/-- The NFS server is not ready. -/
def nfsNotReady : Proc Unit := do
  attempt .dropPrivileges
  orFail (← sys (.writeToPipe .runMountChild "join"))

/-- The status that the process ends with. -/
def checkStatus (nfsStatus : NfsStatus) : Option Int → Except AppError Unit
  | none => .ok ()
  | some raw =>
    let status :=
      if raw = 0 then
        match nfsStatus with
        | .failed (some exitCode) => exitCode
        | _ => raw
      else raw
    if status ≠ 0 then .error (.statusError status) else .ok ()

/-- The end of the VM process. -/
def waitForVm (nfsStatus : NfsStatus) : Proc Unit := do
  orThrow (waitForVmStatus (← sys .waitpid) >>= checkStatus nfsStatus)

/-- The parent's side of the fork. -/
def supervise (callbacks : Nat) (canDetach : Bool) : Proc Unit := do
  let (signalSubscrId, nfsStatus) ← awaitNfsServer callbacks
  match nfsStatus with
  | .ready _ => nfsReady canDetach signalSubscrId
  | .failed _ => nfsNotReady
  waitForVm nfsStatus

/-- `run_mount_child`. -/
def runMountChild (callbacks : Nat) : Proc Unit :=
  Prog.ensuring (do
    let canDetach ← beforeFork
    match ← sys .fork with
    | .failed => Prog.fail .other
    | .vm => startVm
    | .parent => supervise callbacks canDetach) (sys .dropDeferred)

/-- `run_mount` in the child: a failure is announced on the pipe before it is returned. -/
def runMount (callbacks : Nat) : Proc Unit :=
  (runMountChild callbacks).handle (fun e => do
    orFail (← sys (.writeToPipe .runMount "join"))
    Prog.fail e)

/-! ## The pipe -/

/-- A write to the pipe. -/
def Call.isWrite : Call → Bool
  | .writeToPipe _ _ => true
  | _ => false

/-- Nothing is written to the pipe once its descriptor is closed: no write comes after the close. -/
def PipeDiscipline (trace : List Call) : Prop := ∀ c, c.isWrite = true → ¬ [.closePipe, c].Sublist trace

/-- The stages in front of the detachment. -/
def stagesBeforeDetach : List Stage :=
  [.acquireLock, .claimDevices, .selectImage, .vmImageInit, .prepareVmEnvironment, .startNetHelper, .waitForFile,
    .netHelperTryWait, .prepareKeyFileForVm, .dropEffectivePrivileges, .registerVmRecord, .elevateEffectivePrivileges,
    .rpcbindList, .setupRpcbindServices, .dropPrivileges]

/-- The process detaches from its parent: it could become a session leader, it is the supervising process, no step fails, and
the guest's NFS server is ready. -/
structure Detaches (env : ∀ c : Call, c.Answer) : Prop where
  stages : ∀ what ∈ stagesBeforeDetach, env (.stage what) = true
  setsid : env .setsid = true
  fork : env .fork = .parent
  publisher : env .startSignalPublisher = true
  forwarder : env (.stdinForwarderNew (env (.subscribe .stdinForwarder))) = true
  ready : (env .waitForNfsServer).ok = true
  session : env (.eventSessionNew (env (.subscribe .eventSession))) = true
  written : env (.writeToPipe .runMountChild "detach") = true

/-- Nothing fails after the detachment: the standard streams can be redirected, the guest takes the command to quit, and the VM
process ends with status zero or has been waited for already. -/
structure EndsWell (env : ∀ c : Call, c.Answer) : Prop where
  redirected : env (.stage .redirectStdioToNull) = true
  quit : env (.stage .sendQuitCmd) = true
  status : match env .waitpid with
    | .ok s => s.raw = 0
    | .error errno => errno = echild

/-- Everything goes well, and the VM process ends with the given status. -/
def smooth (status : WaitStatus) : (c : Call) → c.Answer
  | .stage _ | .setsid | .startSignalPublisher | .stdinForwarderNew _ | .eventSessionNew _ | .mountShare | .writeToPipe _ _ => true
  | .fork => .parent
  | .subscribe _ => 0
  | .waitForNfsServer => .ready ⟨none, none, false, []⟩
  | .waitpid => .ok status
  | .recvPrompt | .unsubscribe _ | .waitForUnmount | .dropEventSession | .closePipe | .dropDeferred => ()

end Supervise

end Anylinuxfs
