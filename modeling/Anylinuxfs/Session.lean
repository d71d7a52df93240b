import Anylinuxfs.Commands
import Anylinuxfs.Lib.Exec
import Anylinuxfs.Privilege
import Anylinuxfs.Supervise

/-!
# What a mount acquires and gives back

The supervising process of a mount (`Supervise`) with what it holds: the processes, files and settings that outlive a call, and
the deferred actions that give them back. `impl` says what `run_mount_child` does between one call of `Supervise` and the next
one, with the steps of the calls that can fail half-way (`start_gvproxy`, `start_vmnet_helper`, `prepare_key_file_for_vm`,
`setup_rpcbind_services`, `NfsShareSetup::mount`). A deferred action that is run is taken to do what it is for, unless it lacks the
rights.
-/

namespace Anylinuxfs

open Interact (Prog)
open Posix (Creds)

namespace Session

/-- What has to be given back. -/
inductive Resource where
  /-- the process of gvproxy or vmnet-helper -/
  | netHelper
  /-- the socket that the network helper creates -/
  | vfkitSock
  /-- the control socket that libkrun creates -/
  | vsock
  /-- the copy of the key file in the root filesystem of the VM -/
  | keyFile
  /-- the directory in which the key file is packed into an image -/
  | keyFileDir
  | vm
  | apiSocket
  /-- the services at rpcbind are those of the VM -/
  | rpcbind
  /-- the thread that forwards the standard input, and the raw mode of the terminal -/
  | stdinForwarder
  /-- the directory that was made for the share -/
  | mountPoint
  /-- the NFS mount on the host -/
  | nfsMount
  deriving DecidableEq, Repr

/-- What a mount is started with. -/
structure Setup where
  os : HostOs
  privilege : PrivilegeConfig
  creds : Creds
  guestOs : OsType := .linux
  keyFile : Bool := false
  customMountPoint : Bool := false

/-- How the steps of `start_gvproxy` or `start_vmnet_helper` go: what is in front of the spawn, the spawn, and what is behind it
(`pick_usable_loopback_ip`, or the configuration that the helper prints). -/
structure NetHelperEnv where
  prepared : Bool := true
  spawned : Bool := true
  ready : Bool := true

/-- How the steps of `prepare_key_file_for_vm` go; `created` is that the file, or the directory for the image, exists. -/
structure KeyFileEnv where
  created : Bool := true
  copied : Bool := true
  chowned : Bool := true
  isoCreated : Bool := true
  permissionsSet : Bool := true
  overrideStatSet : Bool := true
  opened : Bool := true
  dirRemoved : Bool := true

/-- What `setup_rpcbind_services` finds, and how its steps go. -/
structure RpcbindEnv where
  /-- the helper is gvproxy and rpcbind runs -/
  used : Bool := false
  hostRpcbind : Bool := false
  unregistered : Bool := true
  registered : Bool := true

/-- How the steps of `NfsShareSetup::mount` and `wait_for_mount` go. -/
structure ShareEnv where
  dirCreated : Bool := true
  chowned : Bool := true
  mounted : Bool := true
  seen : Bool := true

/-- Everything that is not decided by the code itself. -/
structure Env where
  answers : ∀ c : Supervise.Call, c.Answer
  helper : NetHelperEnv := {}
  keyFile : KeyFileEnv := {}
  rpcbind : RpcbindEnv := {}
  share : ShareEnv := {}
  /-- `wait_for_unmount` returns because the share is unmounted, not because of a signal -/
  unmounted : Bool := true

/-! ## The state -/

/-- The process: what it holds, its deferred actions with the identifiers of the last ones of each kind, its credentials, the
clean-ups it has run with the credentials it had then, and the calls it has made. -/
structure World where
  held : List Resource := []
  deferred : Deferred Action := .new
  ids : Action → Option ActionId := fun _ => none
  creds : Creds
  cleanups : List (Action × Creds) := []
  calls : List Supervise.Call := []

/-- What a deferred action gives back. -/
def frees : Action → Option Resource
  | .vfkitSockCleanup => some .vfkitSock
  | .terminateNetHelper => some .netHelper
  | .vsockCleanup => some .vsock
  | .removeKeyFile => some .keyFile
  | .waitForVmStatus => some .vm
  | .removeApiSocket => some .apiSocket
  | .restoreServices => some .rpcbind
  | .receiveReport => none
  | .stopStdinForwarder => some .stdinForwarder
  | .sendQuitCmd => none
  | .removeMountPoint => some .mountPoint

/-- The actions that need root on Linux if the mount was started by root. -/
def needsRoot : Action → Bool
  | .vfkitSockCleanup | .terminateNetHelper | .vsockCleanup | .restoreServices | .removeMountPoint => true
  | _ => false

/-- The process has the rights for an action; in macOS it is taken to have them. -/
def permitted (os : HostOs) (c : Creds) (a : Action) : Bool :=
  os = .macos || !needsRoot a || decide (c.uid.real ≠ 0) || decide (c.uid.effective = 0)

/-- The action can give something back: a directory cannot be removed while something is mounted on it. -/
def World.effective (w : World) (os : HostOs) (a : Action) : Bool :=
  permitted os w.creds a && !(a = .removeMountPoint && decide (.nfsMount ∈ w.held))

namespace World

/-- Something is acquired. -/
def acquire (w : World) (r : Resource) : World := { w with held := r :: w.held }

/-- Something is gone. -/
def lose (w : World) (r : Resource) : World := { w with held := w.held.filter (· ≠ r) }

/-- A deferred action is run. -/
def runAction (os : HostOs) (w : World) (a : Action) : World :=
  { w with
    cleanups := w.cleanups ++ [(a, w.creds)]
    held := if w.effective os a then w.held.filter (fun r => frees a ≠ some r) else w.held }

/-- `deferred.add(action)`, whose identifier is kept. -/
def add (w : World) (a : Action) : World :=
  { w with deferred := (w.deferred.add a).2, ids := Function.update w.ids a (some (w.deferred.add a).1) }

/-- `deferred.remove(id)`, with the identifier that the addition of the action has returned. -/
def remove (w : World) (a : Action) : World :=
  match w.ids a with
  | some id => { w with deferred := (w.deferred.remove id).2 }
  | none => w

/-- `deferred.call_now(id)`, with the identifier that the addition of the action has returned. -/
def callNow (os : HostOs) (w : World) (a : Action) : World :=
  match w.ids a with
  | some id =>
    match w.deferred.callNow id with
    | (some a', d) => { w with deferred := d }.runAction os a'
    | (none, d) => { w with deferred := d }
  | none => w

/-- The end of the scope: `_elevate_for_cleanup` is dropped, then `deferred`. -/
def dropScope (os : HostOs) (w : World) : World :=
  let w := if os = .linux then { w with creds := elevateOnDrop w.creds } else w
  { w.deferred.runOrder.foldl (runAction os) w with deferred := w.deferred.removeAll }

end World

/-! ## The calls -/

/-- A call of `privilege.rs`. -/
def changeIds (p : PrivM Unit) (w : World) : Bool × World :=
  let (result, c) := p.run.run w.creds
  (result.toBool, { w with creds := c })

/-- `start_gvproxy` or `start_vmnet_helper`. A `Child` that is dropped is not killed. -/
def startNetHelper (env : NetHelperEnv) (w : World) : Bool × World :=
  if !env.prepared || !env.spawned then (false, w)
  else (env.ready, (w.acquire .netHelper).acquire .vfkitSock)

/-- `prepare_key_file_for_vm`. -/
def prepareKeyFileForVm (guestOs : OsType) (env : KeyFileEnv) (w : World) : Bool × World :=
  if !env.created then (false, w)
  else
    match guestOs with
    | .linux =>
      let w := w.acquire .keyFile
      if !env.copied || !env.chowned || !env.permissionsSet || !env.overrideStatSet then (false, w)
      else (true, w.add .removeKeyFile)
    | .freeBsd =>
      let w := w.acquire .keyFileDir
      if !env.copied || !env.isoCreated || !env.permissionsSet || !env.opened || !env.dirRemoved then (false, w)
      else (true, w.lose .keyFileDir)

/-- `setup_rpcbind_services`. -/
def setupRpcbindServices (env : RpcbindEnv) (w : World) : Bool × World :=
  if !env.used || !env.hostRpcbind then (true, w)
  else
    let w := w.add .restoreServices
    if !env.unregistered then (false, w) else (env.registered, w.acquire .rpcbind)

/-- `NfsShareSetup::mount`: whether it succeeds. -/
def mountShare (customMountPoint : Bool) (env : ShareEnv) (w : World) : Bool × World :=
  if customMountPoint then if env.mounted then (true, w.acquire .nfsMount) else (false, w)
  else if !env.dirCreated then (false, w)
  else
    let w := w.acquire .mountPoint
    if !env.chowned || !env.mounted then (false, w) else (true, w.acquire .nfsMount)

/-- From `nfs_share.mount()` to the mount point that `wait_for_mount` finds. -/
def mountAndWait (setup : Setup) (env : ShareEnv) (w : World) : Bool × World :=
  let (mounted, w) := mountShare setup.customMountPoint env w
  let w := w.callNow setup.os .stopStdinForwarder
  if mounted && env.seen then (true, if setup.customMountPoint then w else w.add .removeMountPoint) else (false, w)

/-- `wait_for_vm_status` has waited for the VM, or has found that it is gone. -/
def reaped : Except Int Posix.WaitStatus → Bool
  | .ok _ => true
  | .error errno => errno = echild

/-- A call, and what is done up to the next one. -/
def step (setup : Setup) (env : Env) (w : World) : (c : Supervise.Call) → c.Answer × World
  | .stage .startNetHelper => startNetHelper env.helper w
  | .stage .waitForFile =>
    if env.answers (.stage .waitForFile) then (true, w.add .vfkitSockCleanup) else (false, w)
  | .stage .netHelperTryWait =>
    if env.answers (.stage .netHelperTryWait) then (true, (w.add .terminateNetHelper).add .vsockCleanup)
    else (false, w.lose .netHelper)
  | .stage .prepareKeyFileForVm =>
    if setup.keyFile then prepareKeyFileForVm setup.guestOs env.keyFile w else (true, w)
  | .fork =>
    match env.answers .fork with
    | .failed => (.failed, w)
    | .vm => (.vm, { w with deferred := w.deferred.removeAll })
    | .parent => (.parent, ((w.acquire .vm).acquire .vsock).add .waitForVmStatus)
  | .stage .dropEffectivePrivileges =>
    changeIds (dropEffectivePrivileges setup.privilege.sudoUid setup.privilege.sudoGid) w
  | .stage .registerVmRecord =>
    -- the thread of `serve_info` is started before the action is added
    if env.answers (.stage .registerVmRecord) then (true, (w.acquire .apiSocket).add .removeApiSocket) else (false, w)
  | .stage .elevateEffectivePrivileges => changeIds elevateEffectivePrivileges w
  | .stage .setupRpcbindServices => setupRpcbindServices env.rpcbind w
  | .subscribe .stdinForwarder => (env.answers (.subscribe .stdinForwarder), w.add .receiveReport)
  | .stdinForwarderNew id =>
    if env.answers (.stdinForwarderNew id) then (true, (w.acquire .stdinForwarder).add .stopStdinForwarder) else (false, w)
  | .waitForNfsServer =>
    (env.answers .waitForNfsServer, if (env.answers .waitForNfsServer).ok then w.add .sendQuitCmd else w)
  | .mountShare => mountAndWait setup env.share w
  | .stage .dropPrivileges => changeIds (dropPrivileges setup.os setup.privilege.sudoUid setup.privilege.sudoGid) w
  | .waitForUnmount => ((), if env.unmounted then w.lose .nfsMount else w)
  | .stage .sendQuitCmd => (env.answers (.stage .sendQuitCmd), w.remove .sendQuitCmd)
  | .waitpid =>
    (env.answers .waitpid,
      if reaped (env.answers .waitpid) then (w.remove .waitForVmStatus).lose .vm else w.remove .waitForVmStatus)
  | .dropDeferred => ((), w.dropScope setup.os)
  | c => (env.answers c, w)

/-- A call, which is recorded. -/
def impl (setup : Setup) (env : Env) (c : Supervise.Call) (w : World) : c.Answer × World :=
  let (answer, w) := step setup env w c
  (answer, { w with calls := w.calls ++ [c] })

/-- The supervising process at the end of `run_mount_child`; after the fork on the side of the VM, the VM process. -/
def finish (setup : Setup) (env : Env) (callbacks : Nat) : World :=
  ((Supervise.runMountChild callbacks).exec (impl setup env) { creds := setup.creds }).2

/-- The VM's side of the fork, where one stage fails. -/
def vmSide (failing : Supervise.Stage) : (c : Supervise.Call) → c.Answer
  | .fork => .vm
  | .stage what => decide (what ≠ failing)
  | c => Supervise.smooth (.exited 0 (Nat.succ_pos 255)) c

/-! ## What is lost -/

/-- The helper has been started, whether it can be used or not. -/
def NetHelperEnv.started (env : NetHelperEnv) : Bool := env.prepared && env.spawned

/-- A step of `prepare_key_file_for_vm` fails after the file, or the directory for the image, has been created. -/
def KeyFileEnv.failsLate (env : KeyFileEnv) (guestOs : OsType) : Bool :=
  env.created &&
    match guestOs with
    | .linux => !env.copied || !env.chowned || !env.permissionsSet || !env.overrideStatSet
    | .freeBsd => !env.copied || !env.isoCreated || !env.permissionsSet || !env.opened || !env.dirRemoved

/-- The share gets mounted. -/
def ShareEnv.lands (env : ShareEnv) (customMountPoint : Bool) : Bool :=
  env.mounted && (customMountPoint || (env.dirCreated && env.chowned))

/-- The share stays mounted: its unmounting was not waited for, or a signal came before it. -/
def StaysMounted (setup : Setup) (env : Env) (calls : List Supervise.Call) : Prop :=
  .mountShare ∈ calls ∧ env.share.lands setup.customMountPoint = true ∧ ¬(.waitForUnmount ∈ calls ∧ env.unmounted = true)

/-- What a mount does not give back, by the calls that it has made. -/
def Lost (setup : Setup) (env : Env) (calls : List Supervise.Call) : Resource → Prop
  | .netHelper => .stage .startNetHelper ∈ calls ∧ env.helper.started = true ∧ .stage .netHelperTryWait ∉ calls
  | .vfkitSock =>
    .stage .startNetHelper ∈ calls ∧ env.helper.started = true ∧
      ¬(.stage .waitForFile ∈ calls ∧ env.answers (.stage .waitForFile) = true)
  | .keyFile =>
    .stage .prepareKeyFileForVm ∈ calls ∧ setup.keyFile = true ∧ setup.guestOs = .linux ∧ env.keyFile.failsLate .linux = true
  | .keyFileDir =>
    .stage .prepareKeyFileForVm ∈ calls ∧ setup.keyFile = true ∧ setup.guestOs = .freeBsd ∧
      env.keyFile.failsLate .freeBsd = true
  | .vm => .waitpid ∈ calls ∧ reaped (env.answers .waitpid) = false
  | .nfsMount => StaysMounted setup env calls
  | .mountPoint =>
    .mountShare ∈ calls ∧ setup.customMountPoint = false ∧ env.share.dirCreated = true ∧
      ((env.share.chowned && env.share.mounted && env.share.seen) = false ∨ StaysMounted setup env calls)
  | .vsock | .apiSocket | .rpcbind | .stdinForwarder => False

end Session

end Anylinuxfs
