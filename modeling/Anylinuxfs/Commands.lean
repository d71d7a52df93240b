import Anylinuxfs.Deferred
import Anylinuxfs.FlockGuard

/-!
# The commands that use the lock file

The bodies of the commands that hold `/tmp/anylinuxfs.lock`, as the sequences of their steps: `run_mount_child`
(`cmd_mount.rs`), `run_shell`, `run_list`, `run_apk`, `run_init` and the image commands (`main.rs`), and `vm_image::init`, which
all but the last of them share. A call with a question mark is a step that may fail; the failure returns from the body, and then
the locals are dropped (`CommandSys` says how). What a run finds out and then branches on (is the rootfs up to date, is there a
key file) is a parameter of the body, so a statement about every command covers all of it.
-/

namespace Anylinuxfs

/-- The calls that can fail and change nothing that is modelled here. -/
inductive Call where
  | lockFileNew | loadConfig | claimDevices | selectImage | prepareVmEnvironment | setupVm
  | checkRootfs | createIso | fetchAndExtract
  | startNetHelper | waitForFile | netHelperTryWait | prepareKeyFileForVm
  | startSignalPublisher | dropEffectivePrivileges | registerVmRecord | elevateEffectivePrivileges
  | rpcbindList | rpcbindUnregister | rpcbindRegister | stdinForwarderNew | eventSessionNew
  | dropPrivileges | writeToPipe | redirectStdioToNull
  | closeChildEnds | processStdin | readAllFromFd | parseLsblk | savePreferences
  deriving DecidableEq, Repr

/-- The actions that `run_mount_child` adds to its `Deferred`. -/
inductive Action where
  | vfkitSockCleanup | terminateNetHelper | vsockCleanup | removeKeyFile | waitForVmStatus | removeApiSocket | restoreServices
  | receiveReport | stopStdinForwarder | sendQuitCmd | removeMountPoint
  deriving DecidableEq, Repr

/-- The steps of a command. -/
inductive Op where
  /-- a call that can fail -/
  | call (c : Call)
  /-- `lock_file.acquire_lock(kind)?` -/
  | acquireLock (kind : FlockKind)
  /-- `guard.upgrade()?` -/
  | upgrade
  /-- the end of the scope of the innermost guard -/
  | dropInner
  /-- files of the rootfs are written -/
  | rewriteRootfs
  /-- `fs::remove_dir_all` of the rootfs -/
  | removeRootfs
  /-- `deferred.add` -/
  | add (action : Action)
  /-- `deferred.call_now` of the last action of this kind -/
  | callNow (action : Action)
  /-- `deferred.remove` of the last action of this kind -/
  | remove (action : Action)
  /-- a fork whose child becomes a VM with a root filesystem that is writable or not; where the fork comes with pipes or a terminal,
  `closeChildEnds` follows in the parent -/
  | forkVm (writable : Bool)
  /-- `waitpid` on the forked VM, then the check of its status -/
  | waitpid
  /-- `start_vm`: the process itself becomes the VM -/
  | startVm (writable : Bool)
  /-- the process is a VM; it never comes back -/
  | insideVm
  /-- `wait_for_nfs_server`: goes on when the server is ready -/
  | waitForNfsServer
  /-- `send_quit_cmd` -/
  | sendQuitCmd
  /-- the call of `wait_for_vm_status`, up to its `waitpid` -/
  | waitForVmStatus
  deriving DecidableEq, Repr

/-! ## `vm_image::init` -/

/-- What `vm_image::init` finds to do. -/
inductive InitCase where
  /-- everything is there and current -/
  | upToDate
  /-- Linux: a newer `vmproxy` is copied, or `init-rootfs` is run -/
  | alpineRewrite
  /-- FreeBSD: newer binaries are put into the disk image by a VM -/
  | freebsdUpgrade
  /-- FreeBSD: the disk image is made and then filled by two VMs -/
  | freebsdInstall
  deriving DecidableEq, Repr

/-- `start_vm_forked` on a VM that was set up for a writable or a read-only root filesystem. -/
def startVmForked (writable : Bool) : List Op := [Op.forkVm writable, .waitpid]

/-- `setup_gvproxy` around a VM of the FreeBSD installation. -/
def setupGvproxy : List Op :=
  [Op.call .startNetHelper, .call .waitForFile, .call .netHelperTryWait, .call .setupVm] ++ startVmForked true

/-- `vm_image::init`. -/
def vmImageInit : InitCase → List Op
  | .upToDate => [Op.call .checkRootfs]
  | .alpineRewrite => [Op.call .checkRootfs, .upgrade, .rewriteRootfs, .dropInner]
  | .freebsdUpgrade =>
    [Op.call .checkRootfs, .upgrade, .call .createIso, .call .setupVm] ++ startVmForked true ++ [Op.rewriteRootfs, .dropInner]
  | .freebsdInstall =>
    [Op.call .checkRootfs, .upgrade, .call .fetchAndExtract, .call .createIso, .rewriteRootfs] ++ setupGvproxy ++ setupGvproxy ++
      [Op.rewriteRootfs, .dropInner]

/-! ## The commands -/

/-- What a mount finds at rpcbind: it does not use it, it must leave the services alone, or it replaces them. -/
inductive RpcbindCase where
  | unused | foreign | replaced
  deriving DecidableEq, Repr

/-- What a run of `run_mount_child` branches on. -/
structure MountCase where
  rwRootfs : Bool
  /-- the image is a FreeBSD one -/
  freebsd : Bool
  init : InitCase
  /-- a key file is copied into the rootfs -/
  keyFile : Bool
  rpcbind : RpcbindCase
  /-- the NFS mount appeared -/
  mounted : Bool
  customMountPoint : Bool
  canDetach : Bool
  deriving DecidableEq, Repr

/-- `run_mount_child` up to the fork. -/
def mountPrelude (c : MountCase) : List Op :=
  [Op.call .lockFileNew, .acquireLock .shared, .call .claimDevices] ++
  (if c.freebsd then [Op.call .selectImage] else []) ++
  vmImageInit c.init ++
  [Op.call .prepareVmEnvironment, .call .startNetHelper, .call .waitForFile, .add .vfkitSockCleanup, .call .netHelperTryWait,
    .add .terminateNetHelper, .add .vsockCleanup, .call .prepareKeyFileForVm] ++
  (if c.keyFile then [Op.add .removeKeyFile] else [])

/-- `run_mount_child` in the supervising process, from the fork until the NFS server is waited for. -/
def mountSupervise (c : MountCase) : List Op :=
  [Op.call .closeChildEnds, .add .waitForVmStatus, .call .startSignalPublisher, .call .dropEffectivePrivileges, .call .registerVmRecord,
    .add .removeApiSocket, .call .elevateEffectivePrivileges] ++
  (match c.rpcbind with
    | .unused => []
    | .foreign => [Op.call .rpcbindList]
    | .replaced => [Op.call .rpcbindList, .add .restoreServices, .call .rpcbindUnregister, .call .rpcbindRegister]) ++
  [Op.add .receiveReport, .call .stdinForwarderNew, .add .stopStdinForwarder]

/-- The end of the supervising process: the VM is waited for and its status checked. -/
def mountFinish : List Op := [Op.remove .waitForVmStatus, .waitForVmStatus, .waitpid]

/-- The branch of `run_mount_child` for an NFS server that is ready. -/
def mountReady (c : MountCase) : List Op :=
  [Op.add .sendQuitCmd, .call .eventSessionNew, .callNow .stopStdinForwarder] ++
  (if c.mounted && !c.customMountPoint then [Op.add .removeMountPoint] else []) ++
  [Op.call .dropPrivileges, .call .writeToPipe] ++
  (if c.canDetach then [Op.call .redirectStdioToNull] else []) ++
  [Op.remove .sendQuitCmd, .sendQuitCmd]

/-- The branch of `run_mount_child` for an NFS server that is not ready, up to the end. -/
def mountNotReady : List Op := [Op.call .dropPrivileges, .call .writeToPipe] ++ mountFinish

/-- `run_mount_child`. The other outcome of `wait_for_nfs_server` goes on with `mountNotReady`. -/
def runMountChild (c : MountCase) : List Op :=
  mountPrelude c ++ [Op.forkVm c.rwRootfs] ++ mountSupervise c ++ [Op.waitForNfsServer] ++ mountReady c ++ mountFinish

/-- `run_shell`: `init` is nothing with `--skip-init`, and the VM is forked unless the shell uses the network of the host. -/
def runShell (rwRootfs : Bool) (init : Option InitCase) (forked : Bool) : List Op :=
  [Op.call .loadConfig, .call .lockFileNew, .acquireLock (if rwRootfs then .exclusive else .shared), .call .selectImage] ++
  (match init with
    | some init => vmImageInit init
    | none => []) ++
  [Op.call .prepareVmEnvironment, .call .claimDevices, .call .setupVm] ++
  (if forked then
    [Op.call .startNetHelper, .call .waitForFile, .call .netHelperTryWait] ++ startVmForked rwRootfs
  else [Op.startVm rwRootfs])

/-- `run_list`: `probe` is whether there is a disk that only a VM can look into (`get_lsblk_info`, `run_vmcommand_short`). -/
def runList (rwRootfs : Bool) (init : InitCase) (probe : Bool) : List Op :=
  [Op.call .lockFileNew, .acquireLock .shared, .call .loadConfig] ++ vmImageInit init ++
  (if probe then
    [Op.forkVm rwRootfs, .call .closeChildEnds, .call .processStdin, .call .readAllFromFd, .call .readAllFromFd, .waitpid,
      .call .parseLsblk]
  else [])

/-- `run_apk`: `change` is whether there are packages to add or to delete. -/
def runApk (init : InitCase) (change : Bool) : List Op :=
  [Op.call .lockFileNew, .acquireLock .shared, .call .loadConfig] ++ vmImageInit init ++
  (if change then [Op.upgrade, .call .setupVm] ++ startVmForked true ++ [Op.call .savePreferences] else [])

/-- `run_init`. -/
def runInit (init : InitCase) : List Op :=
  [Op.call .lockFileNew, .acquireLock .exclusive, .call .loadConfig] ++ vmImageInit init

/-- The installation in `run_image`. -/
def runImageInstall (init : InitCase) : List Op :=
  [Op.call .loadConfig, .call .lockFileNew, .acquireLock .exclusive] ++ vmImageInit init

/-- The removal in `run_image`. -/
def runImageUninstall : List Op :=
  [Op.call .loadConfig, .call .lockFileNew, .acquireLock .exclusive, .upgrade, .removeRootfs, .dropInner]

/-- A command with what its run branches on. -/
inductive Command where
  | mount (c : MountCase)
  | shell (rwRootfs : Bool) (init : Option InitCase) (forked : Bool)
  | list (rwRootfs : Bool) (init : InitCase) (probe : Bool)
  | apk (init : InitCase) (change : Bool)
  | init (init : InitCase)
  | imageInstall (init : InitCase)
  | imageUninstall
  deriving DecidableEq, Repr

/-- The body of a command. -/
def Command.body : Command → List Op
  | .mount c => runMountChild c
  | .shell rwRootfs image forked => runShell rwRootfs image forked
  | .list rwRootfs image probe => runList rwRootfs image probe
  | .apk image change => runApk image change
  | .init image => runInit image
  | .imageInstall image => runImageInstall image
  | .imageUninstall => runImageUninstall

end Anylinuxfs
