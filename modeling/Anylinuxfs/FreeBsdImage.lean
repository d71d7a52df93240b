import Anylinuxfs.ExitStatus
import Anylinuxfs.Lib.Crash
import Anylinuxfs.Settings

/-!
# The FreeBSD image

`freebsd::init_rootfs` and `vm_image::remove` (`vm_image.rs`) on the directory of an image: the kernel, the disk image, the version
file and the files with the modification times of the programs inside. The steps that leave nothing there but for the directory
`tmp`, which is not looked at again, are stages. A command may fail at any call, and it may be cut short between any two. Of the VMs
that work on the disk image only the status is known, as it is to the code: what their scripts do inside is not modelled. Programs are
known by their modification times, as they are to the code, and these do not change while a command runs.
-/

namespace Anylinuxfs

open Interact (Prog)

namespace FreeBsdImage

/-! ## The directory -/

/-- The programs of the image that are kept up to date: `INIT_EXEC` and `VMPROXY_EXEC`. -/
inductive Exec where
  | init | vmproxy
  deriving DecidableEq, Repr

/-- What `tar` has made of a file. -/
inductive Extracted where
  | partly | wholly
  deriving DecidableEq, Repr

/-- How far the disk image is. -/
inductive DiskState where
  /-- a sparse file -/
  | blank
  /-- a VM that was to fill it did not end with status zero -/
  | partly
  /-- the bootstrap VM has ended with status zero -/
  | bootstrapped
  /-- the VM that runs `vm-setup.sh` has ended with status zero -/
  | setUp
  deriving DecidableEq, Repr

/-- The disk image, with the modification times of the programs that were given to the VMs which were to put them there and ended
with status zero. -/
structure Disk where
  state : DiskState
  given : Exec → Nat

/-- The directory of an image. -/
structure Dir where
  kernel : Option Extracted := none
  disk : Option Disk := none
  rootfsVer : Option (List Char) := none
  /-- the files in `mtimes`: what they say, or `none` if it cannot be parsed -/
  mtimes : Exec → Option (Option Nat) := fun _ => none

/-- `ROOTFS_CURRENT_VERSION`. -/
def rootfsCurrentVersion : List Char := "1.0.0".toList

/-! ## The commands -/

/-- The steps that leave nothing behind in the directory. -/
inductive Stage where
  | upgradeLock
  | createTmpDir | createUpgradeIso | devInfo | createMtimesDir
  | fetchOciImage | extractOciImage | createOciIso | createRootfsDirs | copyBootstrap | copyInit | copyVmproxy
  | fetchKernelBundle | readKernelDir | copyModules | writeBootstrapConfig | fetchEntrypoint | setPermissions | createBootstrapIso
  | setupGvproxy
  deriving DecidableEq, Repr

/-- The calls of the commands. -/
inductive Call where
  | stage (what : Stage)
  | kernelExists
  | diskExists
  /-- `rootfs_version_matches` -/
  | rootfsVersionMatches
  /-- `get_file_mtime` of a program in `libexec` -/
  | getFileMtime (exec : Exec)
  | readMtimeFile (exec : Exec)
  /-- the VM that runs `upgrade-binaries.sh` -/
  | runUpgradeVm (execs : List Exec)
  /-- a turn of the loop in `write_mtime_files` -/
  | writeMtimeFile (exec : Exec)
  | extractKernelBundle
  /-- `fs::remove_file`, whose result is not looked at -/
  | removeDisk
  /-- `create_sparse_file` -/
  | createDisk
  | runBootstrapVm
  | runSetupVm
  /-- `fs::write` of the version file, which only complains -/
  | writeRootfsVer
  /-- `chown_tree_to_invoker`, which only complains -/
  | chownTree
  /-- `fs::remove_dir_all` -/
  | removeDirAll
  deriving DecidableEq, Repr

/-- The answers to a call; of a call that can fail and returns nothing, whether it succeeds. -/
@[reducible] def Call.Answer : Call → Type
  | .getFileMtime _ => Option Nat
  | .readMtimeFile _ => Except AppError (Option Nat)
  | .removeDisk | .writeRootfsVer | .chownTree => Unit
  | _ => Bool

/-- A part of a command. -/
abbrev Proc := Prog Call Call.Answer AppError

/-- One call. -/
def sys (c : Call) : Proc c.Answer := Prog.perform c

/-- The operator `?` on a call that either succeeds or fails. -/
def orFail (ok : Bool) : Proc Unit := Prog.require .other ok

/-- A stage, with its operator `?`. -/
def attempt (what : Stage) : Proc Unit := sys (.stage what) >>= orFail

/-- Several stages, one after another. -/
def attemptAll : List Stage → Proc Unit
  | [] => pure ()
  | what :: rest => do
    attempt what
    attemptAll rest

/-- The loop of `write_mtime_files`. -/
def writeMtimes : List Exec → Proc Unit
  | [] => pure ()
  | exec :: execs => do
    orFail (← sys (.writeMtimeFile exec))
    writeMtimes execs

/-- `write_mtime_files`. -/
def writeMtimeFiles (execs : List Exec) : Proc Unit := do
  attempt .createMtimesDir
  writeMtimes execs

/-- `to_upgrade`: the programs that are newer than those in the image. -/
def toUpgrade : List Exec → Proc (List Exec)
  | [] => pure []
  | exec :: execs => do
    match ← sys (.getFileMtime exec) with
    | none => Prog.fail .other
    | some mtime =>
      match ← sys (.readMtimeFile exec) with
      | .error e => Prog.fail e
      | .ok recorded =>
        let rest ← toUpgrade execs
        pure (if mtime > recorded.getD 0 then exec :: rest else rest)

/-- The part of `init_rootfs` for an image that is initialized. -/
def upgrade : Proc Unit := do
  let execs ← toUpgrade [.init, .vmproxy]
  if execs ≠ [] then
    attemptAll [.upgradeLock, .createTmpDir, .createUpgradeIso, .devInfo]
    orFail (← sys (.runUpgradeVm execs))
    writeMtimeFiles execs

/-- The stages in front of the kernel bundle's extraction. -/
def stagesBeforeKernel : List Stage :=
  [.createTmpDir, .fetchOciImage, .extractOciImage, .createOciIso, .createRootfsDirs, .copyBootstrap, .copyInit, .copyVmproxy,
    .fetchKernelBundle]

/-- The stages between the kernel bundle's extraction and the disk image. -/
def stagesBeforeDisk : List Stage :=
  [.readKernelDir, .copyModules, .writeBootstrapConfig, .fetchEntrypoint, .setPermissions, .createBootstrapIso]

/-- The part of `init_rootfs` that makes an image. -/
def install (src : ImageSource) : Proc Unit := do
  match src.isoUrl, src.ociUrl, src.kernel.bundleUrl with
  | some isoImageUrl, some ociImageUrl, some kernelBundleUrl =>
    attempt .upgradeLock
    if isoImageUrl = [] ∨ ociImageUrl = [] ∨ kernelBundleUrl = [] then Prog.fail .other
    else
      attemptAll stagesBeforeKernel
      orFail (← sys .extractKernelBundle)
      attemptAll stagesBeforeDisk
      sys .removeDisk
      orFail (← sys .createDisk)
      attempt .setupGvproxy
      orFail (← sys .runBootstrapVm)
      attempt .setupGvproxy
      orFail (← sys .runSetupVm)
      sys .writeRootfsVer
      writeMtimeFiles [.init, .vmproxy]
      sys .chownTree
  | _, _, _ => Prog.fail .other

/-- `freebsd::init_rootfs`. -/
def initRootfs (src : ImageSource) (force : Bool) : Proc Unit := do
  if src.baseDir = [] then Prog.fail .other
  else if force then install src
  else
    let kernelExists ← sys .kernelExists
    let requiredFilesExist ← Prog.andAlso kernelExists (sys .diskExists)
    let initialized ← Prog.andAlso requiredFilesExist (sys .rootfsVersionMatches)
    if initialized then upgrade else install src

/-- `remove`. -/
def remove : Proc Unit := do
  attempt .upgradeLock
  orFail (← sys .removeDirAll)

/-! ## What the calls do -/

/-- The parts of the directory. -/
inductive Entry where
  | kernel | disk | rootfsVer | mtime (exec : Exec)
  deriving DecidableEq, Repr

/-- Everything that is not decided by the code itself: the modification times of the programs in `libexec`, which calls succeed,
and what those that fail leave. -/
structure Env where
  mtime : Exec → Nat
  ok : Call → Bool
  /-- `truncate` has failed and left a file -/
  diskLeft : Bool := false
  /-- a write has failed and emptied the file -/
  emptied : Bool := true
  /-- what a removal that fails has left -/
  kept : Entry → Bool := fun _ => true

/-- What a removal that fails leaves. -/
def Dir.keep (d : Dir) (kept : Entry → Bool) : Dir where
  kernel := if kept .kernel then d.kernel else none
  disk := if kept .disk then d.disk else none
  rootfsVer := if kept .rootfsVer then d.rootfsVer else none
  mtimes exec := if kept (.mtime exec) then d.mtimes exec else none

/-- The version file is that of this version of the program. -/
def Dir.versionMatches (d : Dir) : Bool := trim (d.rootfsVer.getD []) = rootfsCurrentVersion

/-- Some programs of a disk image are replaced. -/
def Disk.upgrade (execs : List Exec) (mtime : Exec → Nat) (k : Disk) : Disk where
  state := k.state
  given exec := if exec ∈ execs then mtime exec else k.given exec

/-- A call. -/
def step (env : Env) (d : Dir) : (c : Call) → c.Answer × Dir
  | .stage what => (env.ok (.stage what), d)
  | .kernelExists => (d.kernel.isSome, d)
  | .diskExists => (d.disk.isSome, d)
  | .rootfsVersionMatches => (env.ok .rootfsVersionMatches && d.versionMatches, d)
  | .getFileMtime exec => (if env.ok (.getFileMtime exec) then some (env.mtime exec) else none, d)
  | .readMtimeFile exec =>
    (match d.mtimes exec with
      | none => .ok none
      | some content => if env.ok (.readMtimeFile exec) && content.isSome then .ok content else .error .other, d)
  | .runUpgradeVm execs =>
    if env.ok (.runUpgradeVm execs) then (true, { d with disk := d.disk.map (Disk.upgrade execs env.mtime) }) else (false, d)
  | .writeMtimeFile exec =>
    if env.ok (.writeMtimeFile exec) then (true, { d with mtimes := Function.update d.mtimes exec (some (some (env.mtime exec))) })
    else (false, if env.emptied then { d with mtimes := Function.update d.mtimes exec (some none) } else d)
  | .extractKernelBundle =>
    let done := env.ok .extractKernelBundle
    (done, { d with kernel := some (if done then .wholly else .partly) })
  | .removeDisk => ((), if env.ok .removeDisk then { d with disk := none } else d)
  | .createDisk =>
    let done := env.ok .createDisk
    (done, if done || env.diskLeft then { d with disk := some (d.disk.getD ⟨.blank, fun _ => 0⟩) } else d)
  | .runBootstrapVm =>
    let done := env.ok .runBootstrapVm
    (done, { d with disk := d.disk.map fun k => if done then ⟨.bootstrapped, env.mtime⟩ else ⟨.partly, k.given⟩ })
  | .runSetupVm =>
    let done := env.ok .runSetupVm
    (done, { d with disk := d.disk.map fun k => ⟨if done then .setUp else .partly, k.given⟩ })
  | .writeRootfsVer =>
    ((), if env.ok .writeRootfsVer then { d with rootfsVer := some rootfsCurrentVersion }
      else if env.emptied then { d with rootfsVer := some [] } else d)
  | .chownTree => ((), d)
  | .removeDirAll => if env.ok .removeDirAll then (true, {}) else (false, d.keep env.kept)

/-- The directory, with the calls that the command has made. -/
structure World where
  dir : Dir
  calls : List Call := []

/-- A call, which is recorded. -/
def impl (env : Env) (c : Call) (w : World) : c.Answer × World :=
  let (answer, dir) := step env w.dir c
  (answer, ⟨dir, w.calls ++ [c]⟩)

/-! ## Histories -/

/-- The commands that change the directory. -/
inductive Command where
  | init (src : ImageSource) (force : Bool)
  | remove

/-- What a command does. -/
def Command.proc : Command → Proc Unit
  | .init src force => initRootfs src force
  | .remove => FreeBsdImage.remove

/-- A command that is run, and after how many calls it is cut short at the latest. -/
structure Event where
  command : Command
  env : Env
  calls : Nat

/-- How a command ends, if it does, and what it leaves. -/
def Event.run (e : Event) (d : Dir) : Option (Except AppError Unit) × World :=
  e.command.proc.cut (impl e.env) e.calls ⟨d, []⟩

/-- The directory after some commands. -/
def runAll : List Event → Dir → Dir
  | [], d => d
  | e :: events, d => runAll events (e.run d).2.dir

/-- An initialization comes to its end, by itself or not, after it has begun to replace an image of the current version and
before it has written the version file. -/
def Event.Breaks (e : Event) (d : Dir) : Prop :=
  d.versionMatches = true ∧ .extractKernelBundle ∈ (e.run d).2.calls ∧ .writeRootfsVer ∉ (e.run d).2.calls

/-- The image is taken to be initialized. -/
def Dir.accepted (d : Dir) : Bool := d.kernel.isSome && d.disk.isSome && d.versionMatches

/-- The kernel is there, and both VMs that fill the disk image have ended with status zero. -/
def Dir.Complete (d : Dir) : Prop := d.kernel = some .wholly ∧ ∃ k, d.disk = some k ∧ k.state = .setUp

/-- The image is complete, and the programs that its VMs were given to put there have the modification times of those in `libexec`. -/
def Dir.UpToDate (d : Dir) (mtime : Exec → Nat) : Prop :=
  d.kernel = some .wholly ∧ ∃ k, d.disk = some k ∧ k.state = .setUp ∧ k.given = mtime

/-- The commands of a history, of which none breaks the image, while the programs in `libexec` do not get older. -/
def Orderly : Dir → (Exec → Nat) → List Event → Prop
  | _, _, [] => True
  | d, mtime, e :: events =>
    (∀ exec, mtime exec ≤ e.env.mtime exec) ∧ (∀ exec, 0 < e.env.mtime exec) ∧ ¬e.Breaks d ∧
      Orderly (e.run d).2.dir e.env.mtime events

end FreeBsdImage

end Anylinuxfs
