import Anylinuxfs.ClaimDevices
import Anylinuxfs.Lib.Reach

/-!
# The devices of running instances

`setup_vm` (`vm.rs`), the parts of `run_mount_child` (`cmd_mount.rs`) and `run_shell` (`main.rs`) that claim devices and attach
them, and the system of all processes of all instances. A step of the system is one call of one process, or the death of a
process at any moment. What the host answers may be different at every step; only which file a path names stays the same
(`node`).

A lock belongs to an open file description. `fork` gives the child every description of its parent, and the lock goes when the
last process closes the description.
-/

namespace Anylinuxfs

open Interact (Prog Rules)

namespace DeviceSys

/-! ## Virtual machines -/

/-- `VMOpts`. -/
structure VmOpts where
  addDisksRo : Bool := false
  readOnlyDiskPrefixLen : Nat := 0

/-- The loop of `setup_vm` over the devices. -/
def addDisks (opts : VmOpts) : Nat → List DevInfo → Host Unit
  | _, [] => pure ()
  | i, di :: rest => do
    let readOnly := opts.addDisksRo || decide (i < opts.readOnlyDiskPrefixLen)
    if !(← sys (.krunAddDisk di.rpath di.diskFormat readOnly)) then bail (bytes "Failed to add disk")
    addDisks opts (i + 1) rest

/-- A part of a command that may fail. -/
def attempt (what : Stage) : Host Unit := do
  orBail (← sys (.stage what))

/-- `setup_vm`. -/
def setupVm (devInfo : List DevInfo) (opts : VmOpts) : Host Unit := do
  attempt .krunCreateCtx
  addDisks opts 0 devInfo
  attempt .krunNetwork

/-- The disk of the root file system of a FreeBSD image. -/
def rootDiskPath (config : Config) (src : ImageSource) : Bytes :=
  pathJoin (pathJoin config.profilePath (utf8 src.baseDir)) (bytes "freebsd-microvm-disk.img")

/-- The root disk stands before the claimed devices; it is not claimed. -/
def withRootDisk (path : Bytes) (config : MountConfig) (devInfo : List DevInfo) (opts : VmOpts) :
    Host (List DevInfo × VmOpts) := do
  let root ← DevInfo.pv path true
  pure (root :: devInfo, { opts with readOnlyDiskPrefixLen := (!config.common.rwRootfs).toNat })

/-! ## Commands -/

/-- Whether a mount uses FreeBSD: the file system asks for it and a custom action does not forbid it. -/
def usesFreeBsd (config : MountConfig) (mntDevInfo : DevInfo) : Bool :=
  (mntDevInfo.fsType.map (fun fs => decide (config.common.fsPreferredOs fs = .freeBsd))).getD false &&
    decide (((config.action.map CustomActionConfig.requiredOs).join.getD .freeBsd) = .freeBsd)

/-- The virtual machine's side of the fork in `run_mount_child`. -/
def mountVm (devInfo : List DevInfo) (opts : VmOpts) : Host Unit :=
  Prog.ensuring (do
    setupVm devInfo opts
    attempt .startVm) (sys .dropCtx)

/-- `run_mount_child` from the first step after the devices of the virtual machine are known. -/
def mountDevices (devInfo : List DevInfo) (opts : VmOpts) : Host Unit := do
  attempt .vmImageInit
  attempt .prepareVmEnvironment
  attempt .startNetHelper
  attempt .prepareKeyFile
  match ← sys .fork with
  | .failed => bail (bytes "Failed to fork process")
  | .child => mountVm devInfo opts
  | .parent => attempt .supervise

/-- `run_mount_child` while it holds the claimed devices. -/
def mountClaimed (claimed : Claimed) : Host Unit := do
  let config := claimed.config
  let opts : VmOpts := { addDisksRo := config.readOnly }
  if usesFreeBsd config claimed.mntDevInfo then
    match config.common.images.lookup config.common.defaultFreeBsdImage with
    | none => bail (bytes "FreeBSD image " ++ utf8 config.common.defaultFreeBsdImage ++ bytes " not found")
    | some src =>
      let (devInfo, opts) ← withRootDisk (rootDiskPath config.common src) config claimed.devInfos opts
      mountDevices devInfo opts
  else mountDevices claimed.devInfos opts

/-- `run_mount_child`; the files of the claimed devices are closed on every way out. -/
def runMountChild (config : MountConfig) : Host Unit := do
  attempt .acquireLockFile
  let claimed ← claimDevices config
  (mountClaimed claimed).ensuring (closeAll claimed.disks)

/-- `ShellCmd`. -/
structure ShellCmd where
  image : Option (List Char) := none
  skipInit : Bool := false
  noTsi : Bool := false

/-- The image a shell runs on, and its root disk. The default image is a Linux one. -/
def shellImage (config : MountConfig) (image : Option (List Char)) : Host (MountConfig × Option Bytes) :=
  match image with
  | none => pure ({ config with common := config.common.withImageSource { baseDir := [], osType := .linux } }, none)
  | some imageName =>
    match config.common.images.filter (fun i => imageName.isPrefixOf i.1) with
    | [] => bail (bytes "unknown image: " ++ utf8 imageName)
    | [(_, src)] => pure ({ config with common := config.common.withImageSource src }, some (rootDiskPath config.common src))
    | _ => bail (bytes "ambiguous image name: " ++ utf8 imageName)

/-- `run_shell` from the first step after the devices of the virtual machine are known. The virtual machine is set up in the
process itself, and started in it or in a fork of it. -/
def shellDevices (cmd : ShellCmd) (os : OsType) (devInfo : List DevInfo) (opts : VmOpts) : Host Unit :=
  Prog.ensuring (do
    setupVm devInfo opts
    if os = .linux ∧ cmd.noTsi = false then attempt .startVm
    else
      attempt .startNetHelper
      match ← sys .fork with
      | .failed => bail (bytes "Failed to fork process")
      | .child => attempt .startVm
      | .parent => attempt .waitpid) (sys .dropCtx)

/-- `run_shell` while it holds the claimed devices. -/
def shellClaimed (cmd : ShellCmd) (rootDisk : Option Bytes) (claimed : Claimed) : Host Unit := do
  let config := claimed.config
  let opts : VmOpts := { addDisksRo := config.readOnly }
  let os := config.common.kernelOs
  match rootDisk.filter (fun _ => os = .freeBsd) with
  | some path =>
    let (devInfo, opts) ← withRootDisk path config claimed.devInfos opts
    shellDevices cmd os devInfo opts
  | none => shellDevices cmd os claimed.devInfos opts

/-- `run_shell`. -/
def runShell (cmd : ShellCmd) (config : MountConfig) : Host Unit := do
  attempt .acquireLockFile
  let (config, rootDisk) ← shellImage config cmd.image
  if !cmd.skipInit then attempt .vmImageInit
  attempt .prepareVmEnvironment
  let claimed ← claimDevices config
  (shellClaimed cmd rootDisk claimed).ensuring (closeAll claimed.disks)

/-- The commands that claim devices. -/
inductive Instance where
  | mount (config : MountConfig)
  | shell (cmd : ShellCmd) (config : MountConfig)

/-- What an instance runs. -/
def Instance.program : Instance → Host Unit
  | .mount config => runMountChild config
  | .shell cmd config => runShell cmd config

/-- The root disk that an instance may attach before the claimed devices. -/
def Instance.rootDisk : Instance → Option Bytes
  | .mount config => (config.common.images.lookup config.common.defaultFreeBsdImage).map (rootDiskPath config.common)
  | .shell cmd config =>
    match cmd.image.map (fun imageName => config.common.images.filter (fun i => imageName.isPrefixOf i.1)) with
    | some [(_, src)] => some (rootDiskPath config.common src)
    | _ => none

/-! ## Processes -/

/-- A descriptor of a process: the description, the file and the mode of its lock. -/
structure Fd (φ : Type) where
  desc : Desc
  file : φ
  kind : Flock.Kind
  deriving DecidableEq, Repr

/-- A disk of a virtual machine. -/
structure Attachment (φ : Type) where
  file : φ
  readOnly : Bool
  deriving DecidableEq, Repr

/-- The files of a process: its descriptors, the files that it or the process it was forked from has claimed, and the disks of
the virtual machine that it sets up or runs. -/
structure Files (φ : Type) where
  fds : List (Fd φ) := []
  claimed : List φ := []
  attached : List (Attachment φ) := []

/-- A process of an instance, with what the instance was started as. -/
structure Process (φ : Type) where
  inst : Nat
  command : Instance
  files : Files φ := {}
  prog : Host Unit

variable {φ : Type} (node : Bytes → φ)

/-- The files of a process after a call. -/
def Files.after (files : Files φ) : (c : SysCall) → c.Answer → Files φ
  | .openLocked path kind, .granted disk =>
    { files with fds := ⟨disk, node path, kind⟩ :: files.fds, claimed := node path :: files.claimed }
  | .close disk, _ => { files with fds := files.fds.filter (fun fd => fd.desc ≠ disk) }
  | .krunAddDisk path _ readOnly, true => { files with attached := ⟨node path, readOnly⟩ :: files.attached }
  | .dropCtx, _ => { files with attached := [] }
  | _, _ => files

/-- The process goes on with the answer to its call. -/
def Process.resume (p : Process φ) (c : SysCall) (k : c.Answer → Host Unit) (r : c.Answer) : Process φ :=
  { p with files := p.files.after node c r, prog := k r }

/-! ## The system -/

/-- How the host answers at one step. -/
structure HostView where
  mountTable : Except Bytes (List Bytes) := .ok []
  exists_ : Bytes → Bool := fun _ => true
  isFile : Bytes → Bool := fun _ => true
  unmountFs : Bytes → Except Bytes Unit := fun _ => .ok ()
  blkidProbe : Bytes → Option Probe := fun _ => some ⟨none, none, none⟩
  blkidPartitions : Bytes → Option (List Probe) := fun _ => some []
  mediaWritable : Bytes → Bool := fun _ => true
  stage : Except Bytes Unit := .ok ()
  /-- Whether a file can be opened, a process forked and a disk added. -/
  succeeds : Bool := true

/-- The answer of the host to a call that no other process has a part in. -/
def HostView.answer (host : HostView) : (c : SysCall) → c.Answer
  | .mountTable => host.mountTable
  | .exists path => host.exists_ path
  | .isFile path => host.isFile path
  | .unmountFs path => host.unmountFs path
  | .blkidProbe path => host.blkidProbe path
  | .blkidPartitions path => host.blkidPartitions path
  | .mediaWritable path => host.mediaWritable path
  | .openLocked _ _ => .notOpened
  | .fork => .failed
  | .krunAddDisk _ _ _ => host.succeeds
  | .close _ | .dropCtx => ()
  | .stage _ => host.stage

end DeviceSys

/-- The processes of all instances, the locks, and the number of the next description. -/
structure DeviceSys (φ : Type) where
  procs : List (DeviceSys.Process φ) := []
  locks : Flock.Table Desc φ := .empty
  next : Nat := 0

namespace DeviceSys

/-- What may happen: an instance is started, a process makes its next call, or it dies. -/
inductive Act where
  | start (instance_ : Instance)
  | exec (pid : Nat) (host : HostView)
  | kill (pid : Nat)

variable {φ : Type}

/-- A description that a process has open. -/
def Open (s : DeviceSys φ) (desc : Desc) : Prop := ∃ p ∈ s.procs, ∃ fd ∈ p.files.fds, fd.desc = desc

instance (s : DeviceSys φ) (desc : Desc) : Decidable (s.Open desc) :=
  inferInstanceAs (Decidable (∃ p ∈ s.procs, ∃ fd ∈ p.files.fds, fd.desc = desc))

/-- The locks of descriptions that no process has open any more are released. -/
def release (s : DeviceSys φ) : DeviceSys φ := { s with locks := s.locks.retain (fun desc => decide (s.Open desc)) }

/-- Replace a process. -/
def setProc (s : DeviceSys φ) (pid : Nat) (p : Process φ) : DeviceSys φ := { s with procs := s.procs.set pid p }

variable [DecidableEq φ] (node : Bytes → φ)

/-- A process makes a call. -/
def perform (s : DeviceSys φ) (pid : Nat) (p : Process φ) (host : HostView) :
    (c : SysCall) → (c.Answer → Host Unit) → DeviceSys φ
  | .openLocked path kind, k =>
    if host.succeeds then
      match s.locks.tryLock ⟨p.inst, s.next⟩ (node path) kind with
      | some locks =>
        { s.setProc pid (p.resume node (.openLocked path kind) k (.granted ⟨p.inst, s.next⟩)) with
          locks := locks, next := s.next + 1 }
      | none => s.setProc pid (p.resume node (.openLocked path kind) k .refused)
    else s.setProc pid (p.resume node (.openLocked path kind) k .notOpened)
  | .close disk, k => (s.setProc pid (p.resume node (.close disk) k ())).release
  | .fork, k =>
    if host.succeeds then
      { s with procs := s.procs.set pid (p.resume node .fork k .parent) ++ [p.resume node .fork k .child] }
    else s.setProc pid (p.resume node .fork k .failed)
  | c, k => s.setProc pid (p.resume node c k (host.answer c))

/-- One step of the system. -/
def step (s : DeviceSys φ) : Act → Option (DeviceSys φ)
  | .start instance_ =>
    some { s with procs := s.procs ++ [{ inst := s.procs.length, command := instance_, prog := instance_.program }] }
  | .exec pid host =>
    match s.procs[pid]? with
    | none => none
    | some p =>
      match p.prog with
      | .ret _ | .fail _ => none
      | .call c k => some (s.perform node pid p host c k)
  | .kill pid =>
    match s.procs[pid]? with
    | none => none
    | some p => some (s.setProc pid { inst := p.inst, command := p.command, prog := .ret () }).release

/-! ## What is asked of the system -/

/-- The file is the root disk of a FreeBSD image, which the instance attaches without a claim. -/
def Instance.AttachesRoot (i : Instance) (file : φ) : Prop := ∃ path ∈ i.rootDisk, node (devicePaths path).2 = file

end DeviceSys

end Anylinuxfs
