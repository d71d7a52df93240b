import Anylinuxfs.ExitStatus
import Anylinuxfs.Lib.Crash
import Anylinuxfs.Text

/-!
# The Linux image

`alpine::init_rootfs` (`vm_image.rs`), with the program `init-rootfs` that it starts (`main.go`), and `vm_image::remove`, on the
directory of an image. The two programs are one here, which may be cut short between any two calls: if only the first one is killed,
the other goes on to its end, which is a cut as well. The VM runs `vm-setup.sh`, which goes on when one of its commands fails and
ends with a `mkdir`: whatever its status, the packages may be installed only in part.
-/

namespace Anylinuxfs

open Interact (Prog)

namespace AlpineImage

/-! ## The directory -/

/-- What `init-rootfs` makes, but for `vmproxy` and the two programs that are looked for. -/
inductive Part where
  | image | resolvConf | caCerts | fstab | setupScript | entrypoint | modules | overrideStat | packages
  deriving DecidableEq, Repr

/-- How much of it there is. -/
inductive Written where
  | partly | wholly
  deriving DecidableEq, Repr

/-- A file that is copied. -/
structure File where
  content : Bytes
  mtime : Nat
  deriving DecidableEq, Repr

/-- The directory of an image. -/
structure Dir where
  parts : Part → Option Written := fun _ => none
  bash : Bool := false
  nfsd : Bool := false
  vmproxy : Option File := none
  rootfsVer : Option (List Char) := none

/-- `ROOTFS_CURRENT_VERSION`. -/
def rootfsCurrentVersion : List Char := "1.5.1".toList

/-! ## The commands -/

/-- The steps that leave nothing behind that is looked at. -/
inductive Stage where
  | upgradeLock | spawnInitRootfs | downloadImage | waitInitRootfs | setOverrideStat
  deriving DecidableEq, Repr

/-- The calls of the commands. -/
inductive Call where
  | stage (what : Stage)
  | bashExists | nfsdExists | entrypointExists | vmproxyExists | fstabExists
  /-- `read_to_string` of `etc/fstab`, and whether it contains the two keywords -/
  | fstabConfigured
  /-- `rootfs_version_matches` -/
  | rootfsVersionMatches
  /-- `files_likely_differ` -/
  | filesLikelyDiffer
  /-- `fs::copy`, or `copyVmproxyBinary` -/
  | copyVmproxy
  /-- `os.RemoveAll`, or `fs::remove_dir_all` -/
  | removeAll
  /-- the step of `initRootfs` that makes a part -/
  | make (part : Part)
  /-- `vmrunner.Run` -/
  | runVm
  /-- `fs::write` of the version file, which only complains -/
  | writeRootfsVer
  deriving DecidableEq, Repr

/-- The answers to a call; of a call that can fail and returns nothing, whether it succeeds. -/
@[reducible] def Call.Answer : Call → Type
  | .fstabConfigured | .filesLikelyDiffer => Option Bool
  | .writeRootfsVer => Unit
  | _ => Bool

/-- A part of a command. -/
abbrev Proc := Prog Call Call.Answer AppError

/-- One call. -/
def sys (c : Call) : Proc c.Answer := Prog.perform c

/-- The operator `?` on a call that either succeeds or fails. -/
def orFail (ok : Bool) : Proc Unit := Prog.require .other ok

/-- A stage, with its operator `?`. -/
def attempt (what : Stage) : Proc Unit := sys (.stage what) >>= orFail

/-- Several parts, one after another. -/
def makeAll : List Part → Proc Unit
  | [] => pure ()
  | part :: rest => do
    orFail (← sys (.make part))
    makeAll rest

/-- The parts that `initRootfs` makes before it copies `vmproxy`. -/
def partsBeforeVmproxy : List Part := [.image, .resolvConf, .caCerts, .fstab, .setupScript, .entrypoint, .modules]

/-- `initRootfs` of `init-rootfs`. Where there is nothing yet, `RemoveAll` does nothing. -/
def goInitRootfs : Proc Unit := do
  orFail (← sys .removeAll)
  attempt .downloadImage
  makeAll partsBeforeVmproxy
  orFail (← sys .copyVmproxy)
  makeAll [.overrideStat]

/-- The part of `init_rootfs` that makes an image. -/
def install : Proc Unit := do
  attempt .upgradeLock
  attempt .spawnInitRootfs
  goInitRootfs
  orFail (← sys .runVm)
  attempt .waitInitRootfs
  sys .writeRootfsVer

/-- The part of `init_rootfs` for an image that is initialized. -/
def update : Proc Unit := do
  match ← sys .filesLikelyDiffer with
  | none => Prog.fail .other
  | some false => pure ()
  | some true =>
    attempt .upgradeLock
    orFail (← sys .copyVmproxy)
    attempt .setOverrideStat

/-- `fstab_configured`. -/
def fstabConfigured : Proc Bool := do
  if ← sys .fstabExists then
    match ← sys .fstabConfigured with
    | none => Prog.fail .other
    | some configured => pure configured
  else pure false

/-- The condition under which nothing is installed. -/
def initialized : Proc Bool := do
  let bash ← sys .bashExists
  let nfsd ← Prog.andAlso bash (sys .nfsdExists)
  let entrypoint ← Prog.andAlso nfsd (sys .entrypointExists)
  let requiredFilesExist ← Prog.andAlso entrypoint (sys .vmproxyExists)
  let configured ← fstabConfigured
  Prog.andAlso (requiredFilesExist && configured) (sys .rootfsVersionMatches)

/-- `alpine::init_rootfs`. -/
def initRootfs (force : Bool) : Proc Unit := do
  if force then install
  else if ← initialized then update
  else install

/-- `remove`. -/
def remove : Proc Unit := do
  attempt .upgradeLock
  orFail (← sys .removeAll)

/-! ## What the calls do -/

/-- What a removal takes away. -/
inductive Entry where
  | part (part : Part) | bash | nfsd | vmproxy | rootfsVer
  deriving DecidableEq, Repr

/-- Everything that is not decided by the code itself: `vmproxy` on the host, the modification time that a copy of it gets, which
calls succeed, and what those that fail leave. -/
structure Env where
  host : File
  copyMtime : Nat
  ok : Call → Bool
  /-- the answer to the request for `entrypoint.sh` is 200 -/
  entrypointFound : Bool := true
  /-- how much of the packages the setup installs, and of the modules it unpacks, whatever its status -/
  packages : Written := .wholly
  /-- `bash` and `rpc.nfsd` are among what is installed in part -/
  installed : Bool × Bool := (true, true)
  /-- the image has a file `etc/fstab` of its own -/
  imageFstab : Bool := true
  /-- a file that is cut short contains the keywords -/
  keywords : Bool := false
  /-- a step that fails leaves something of its part -/
  left : Part → Bool := fun _ => true
  /-- how much a copy that fails has written, if it has emptied the file -/
  copied : Option Nat := some 0
  /-- a write has failed and emptied the file -/
  emptied : Bool := true
  /-- what a removal that fails has left -/
  kept : Entry → Bool := fun _ => true

/-- What a removal that fails leaves. -/
def Dir.keep (d : Dir) (kept : Entry → Bool) : Dir where
  parts part := if kept (.part part) then d.parts part else none
  bash := kept .bash && d.bash
  nfsd := kept .nfsd && d.nfsd
  vmproxy := if kept .vmproxy then d.vmproxy else none
  rootfsVer := if kept .rootfsVer then d.rootfsVer else none

/-- The version file is that of this version of the program. -/
def Dir.versionMatches (d : Dir) : Bool := trim (d.rootfsVer.getD []) = rootfsCurrentVersion

/-- `files_likely_differ`. -/
def filesLikelyDiffer (orig copied : File) : Bool :=
  decide (orig.content.length ≠ copied.content.length) || decide (copied.mtime < orig.mtime)

/-- A part is there. -/
def Dir.put (d : Dir) (part : Part) (written : Written) : Dir :=
  { d with parts := Function.update d.parts part (some written) }

@[simp] theorem Dir.put_vmproxy (d : Dir) (part : Part) (written : Written) : (d.put part written).vmproxy = d.vmproxy := rfl

@[simp] theorem Dir.put_rootfsVer (d : Dir) (part : Part) (written : Written) : (d.put part written).rootfsVer = d.rootfsVer := rfl

/-- What is there of a part when the step for it has succeeded; without an answer of 200 the file of the entry point stays empty. -/
def Env.makes (env : Env) : Part → Written
  | .entrypoint => if env.entrypointFound then .wholly else .partly
  | .packages => env.packages
  | _ => .wholly

/-- The packages, of which `bash` and `nfs-utils` are two. -/
def Dir.install (env : Env) (d : Dir) : Dir :=
  { d.put .packages env.packages with
    bash := env.packages = .wholly ∨ env.installed.1
    nfsd := env.packages = .wholly ∨ env.installed.2 }

/-- A step of `initRootfs`. -/
def Dir.make (env : Env) (part : Part) (d : Dir) : Bool × Dir :=
  if env.ok (.make part) then (true, d.put part (env.makes part)) else (false, if env.left part then d.put part .partly else d)

/-- A copy of `vmproxy`. -/
def Dir.copyVmproxy (env : Env) (d : Dir) : Bool × Dir :=
  if env.ok .copyVmproxy then (true, { d with vmproxy := some ⟨env.host.content, env.copyMtime⟩ })
  else (false, { d with vmproxy := (env.copied.map fun n => ⟨env.host.content.take n, env.copyMtime⟩).or d.vmproxy })

/-- A call. -/
def step (env : Env) (d : Dir) : (c : Call) → c.Answer × Dir
  | .stage what => (env.ok (.stage what), d)
  | .bashExists => (d.bash, d)
  | .nfsdExists => (d.nfsd, d)
  | .entrypointExists => ((d.parts .entrypoint).isSome, d)
  | .vmproxyExists => (d.vmproxy.isSome, d)
  | .fstabExists => ((d.parts .fstab).isSome || env.imageFstab, d)
  | .fstabConfigured =>
    (if env.ok .fstabConfigured then
      some (match d.parts .fstab with
        | some .wholly => true
        | some .partly => env.keywords
        | none => false)
    else none, d)
  | .rootfsVersionMatches => (env.ok .rootfsVersionMatches && d.versionMatches, d)
  | .filesLikelyDiffer => (if env.ok .filesLikelyDiffer then d.vmproxy.map (filesLikelyDiffer env.host) else none, d)
  | .copyVmproxy => d.copyVmproxy env
  | .removeAll => if env.ok .removeAll then (true, {}) else (false, d.keep env.kept)
  | .make part => d.make env part
  | .runVm => (env.ok .runVm, d.install env)
  | .writeRootfsVer =>
    ((), if env.ok .writeRootfsVer then { d with rootfsVer := some rootfsCurrentVersion }
      else if env.emptied then { d with rootfsVer := some [] } else d)

/-- The directory, with the calls that the command has made. -/
structure World where
  dir : Dir
  calls : List Call := []

/-- A call, which is recorded. -/
def impl (env : Env) (c : Call) (w : World) : c.Answer × World :=
  let (answer, dir) := step env w.dir c
  (answer, ⟨dir, w.calls ++ [c]⟩)

/-! ## Histories -/

/-- The commands that change the directory. -/
inductive Command where
  | init (force : Bool)
  | remove
  deriving DecidableEq, Repr

/-- What a command does. -/
def Command.proc : Command → Proc Unit
  | .init force => initRootfs force
  | .remove => AlpineImage.remove

/-- A command that is run, and after how many calls it is cut short at the latest. -/
structure Event where
  command : Command
  env : Env
  calls : Nat

/-- How a command ends, if it does, and what it leaves. -/
def Event.run (e : Event) (d : Dir) : Option (Except AppError Unit) × World :=
  e.command.proc.cut (impl e.env) e.calls ⟨d, []⟩

/-- The directory after some commands. -/
def runAll : List Event → Dir → Dir
  | [], d => d
  | e :: events, d => runAll events (e.run d).2.dir

/-- The image is taken to be initialized. -/
def Dir.accepted (d : Dir) : Bool :=
  d.bash && d.nfsd && (d.parts .entrypoint).isSome && d.vmproxy.isSome && (d.parts .fstab).isSome && d.versionMatches

/-- Every part is there, and the two programs. -/
structure Dir.Complete (d : Dir) : Prop where
  parts : ∀ part, d.parts part = some .wholly
  bash : d.bash = true
  nfsd : d.nfsd = true

/-- A removal has failed that took a part away and left everything that is looked at. -/
def Event.Tears (e : Event) (d : Dir) : Prop :=
  .removeAll ∈ (e.run d).2.calls ∧ e.env.ok .removeAll = false ∧ (d.keep e.env.kept).accepted = true ∧
    ∃ part, e.env.kept (.part part) = false

/-- `entrypoint.sh` is found, and the packages are all installed. -/
def Env.Provides (env : Env) : Prop := env.entrypointFound = true ∧ env.packages = .wholly

/-- The version file is written although `entrypoint.sh` was not found, or a package was not installed. -/
def Event.Hollow (e : Event) (d : Dir) : Prop := .writeRootfsVer ∈ (e.run d).2.calls ∧ ¬e.env.Provides

/-- The commands of a history, of which none tears the image or leaves it without its entry point or its packages. -/
def Orderly : Dir → List Event → Prop
  | _, [] => True
  | d, e :: events => ¬e.Tears d ∧ ¬e.Hollow d ∧ Orderly (e.run d).2.dir events

end AlpineImage

end Anylinuxfs
