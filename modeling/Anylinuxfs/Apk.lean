import Anylinuxfs.InitRootfs
import Anylinuxfs.Lib.Pattern
import Anylinuxfs.Lib.Reach
import Anylinuxfs.Lib.Shell
import Anylinuxfs.Preferences

/-!
# Custom packages

`run_apk` and the reinitialisation of the root filesystem, as steps on the two config files. The global file is only read, by
`load_config`, so it is its `[alpine]` section here. The user's file is also read by `init-rootfs`, with another library.
-/

namespace Anylinuxfs

/-- `get_default_packages`. -/
def getDefaultPackages : List (List Char) :=
  (((InitRootfs.defaultPackagesData.splitOn '\n').map trim).filter (· ≠ [])).foldl (fun set pkg => setInsert pkg set) []

/-- `Preferences::alpine_custom_packages`, of the global and the user's preferences. -/
def alpineCustomPackages (globalPrefs userPrefs : AlpineConfig) : List (List Char) :=
  (globalPrefs.customPackages ++ userPrefs.customPackages).foldl (fun set pkg => setInsert pkg set) []

/-- How the `[alpine]` section of the user's file is read and written. The libraries for TOML are not part of the repository: `alpine`
is what `load_config` finds in a file that it can read, `decodeFile` the packages that `toml.DecodeFile` finds, and `save` what
`save_preferences` writes in the place of a file. -/
class ConfigToml (φ : Type) where
  alpine : φ → Option AlpineConfig
  decodeFile : φ → Option (List (List Char))
  save : AlpineConfig → Option φ → φ

/-- Both libraries find the packages that were written. -/
structure ConfigToml.Lawful (φ : Type) [ConfigToml φ] : Prop where
  alpine_save : ∀ config (file : Option φ), alpine (save config file) = some config
  decodeFile_save : ∀ config (file : Option φ), decodeFile (save config file) = some config.customPackages

/-- The config files; the user may have none. -/
structure ApkState (φ : Type) where
  globalPrefs : AlpineConfig
  userFile : Option φ
  deriving DecidableEq, Repr

/-- `ApkCmd`. -/
inductive ApkCmd where
  | info
  | add (packages : List (List Char))
  | del (packages : List (List Char))
  deriving DecidableEq, Repr

/-- How `save_preferences` ends: the file is truncated before it is written, so a failure may leave anything in it. -/
inductive SaveOutcome (φ : Type) where
  | done
  | failed (left : Option φ)
  deriving DecidableEq, Repr

/-- How the rest goes: whether `vm_image::init` succeeds, the exit status of the VM if it was started, and the saving. -/
structure ApkOutcome (φ : Type) where
  initOk : Bool
  status : Option Int
  save : SaveOutcome φ
  deriving DecidableEq, Repr

/-- How a command ends: it succeeds and prints lines, or fails. -/
inductive ApkResult where
  | ok (printed : List (List Char))
  | err
  deriving DecidableEq, Repr

section

variable {φ : Type} [ConfigToml φ]

/-- The user's preferences in `load_config`; a file that is not there has the default ones. -/
def ApkState.userPrefs (s : ApkState φ) : Option AlpineConfig :=
  match s.userFile with
  | some file => ConfigToml.alpine file
  | none => some {}

namespace Apk

/-- The end of `run_apk`: the command runs in the VM, and the preferences are saved if it was successful. -/
def runInVm (s : ApkState φ) (userPrefs : AlpineConfig) (out : ApkOutcome φ) : ApkResult × ApkState φ :=
  if out.status = some 0 then
    match out.save with
    | .done => (.ok [], { s with userFile := some (ConfigToml.save userPrefs s.userFile) })
    | .failed left => (.err, { s with userFile := left })
  else (.err, s)

/-- `run_apk`. -/
def runApk (s : ApkState φ) (cmd : ApkCmd) (out : ApkOutcome φ) : ApkResult × ApkState φ :=
  match s.userPrefs with
  | none => (.err, s)
  | some userPrefs =>
    if out.initOk then
      let alpinePackages := alpineCustomPackages s.globalPrefs userPrefs
      match cmd with
      | .info => (.ok alpinePackages, s)
      | .add packages =>
        let packages := packages.filter (fun pkg => pkg ∉ getDefaultPackages)
        let packageSet := packages.foldl (fun set pkg => setInsert pkg set) alpinePackages
        if packages = [] then (.ok [], s) else runInVm s { userPrefs with customPackages := packageSet } out
      | .del packages =>
        let packages := packages.filter (fun pkg => pkg ∉ getDefaultPackages)
        let customPackages := userPrefs.customPackages.filter (fun pkg => pkg ∉ packages)
        if packages = [] then (.ok [], s) else runInVm s { userPrefs with customPackages } out
    else (.err, s)

end Apk

/-- What `apk info` shows. -/
def ApkState.info (s : ApkState φ) : Option (List (List Char)) :=
  s.userPrefs.map (alpineCustomPackages s.globalPrefs)

/-- `loadCustomPackages` of `init-rootfs`, which reads the user's file only; there are none in a file that it cannot read. -/
def ApkState.loadCustomPackages (s : ApkState φ) : List (List Char) :=
  match s.userFile with
  | some file => (ConfigToml.decodeFile file).getD []
  | none => []

/-- A byte of the name of a package: a letter, a digit, or one of plus, minus, dot and underscore. -/
def packageByte (c : UInt8) : Bool :=
  (0x61 ≤ c && c ≤ 0x7a) || (0x41 ≤ c && c ≤ 0x5a) || (0x30 ≤ c && c ≤ 0x39) || [0x2b, 0x2d, 0x2e, 0x5f].contains c

/-- A word that `apk add` takes for the name of a package. Others are options (with a minus in front), conflicts, repositories and
versions (with other marks), or files (with `.apk` in them). -/
def isPackageName (w : Bytes) : Bool :=
  w.head?.any (fun c => packageByte c && !([0x2b, 0x2d, 0x2e].contains c)) && w.all packageByte &&
    Pattern.lacks (bytes ".apk") w

/-- The packages that the script of a reinitialisation installs, as the shell and `apk add` read it, if it is nothing but packages to
them. -/
def ApkState.installedPackages (s : ApkState φ) : Option (List Bytes) :=
  ((Shell.words (utf8 (InitRootfs.apkAddLine (InitRootfs.getDefaultPackages ++ s.loadCustomPackages)))).map (List.drop 4)).filter
    fun names => names.all isPackageName

/-- A command, or a reinitialisation, which a command or an upgrade of the program may ask for. -/
inductive ApkStep (φ : Type) where
  | apk (cmd : ApkCmd) (out : ApkOutcome φ)
  | reinit
  deriving DecidableEq, Repr

/-- One step. The config files have to be loaded before the root filesystem is made. -/
def ApkState.step (s : ApkState φ) : ApkStep φ → Option (ApkState φ)
  | .apk cmd out => some (Apk.runApk s cmd out).2
  | .reinit => if s.userPrefs.isSome then some s else none

/-! ## What is asked of a step -/

/-- The three views of the custom packages agree about a step. -/
structure ApkLaw (s : ApkState φ) (step : ApkStep φ) (s' : ApkState φ) : Prop where
  /-- After a successful `apk del` no package that it names is shown, the default ones apart. -/
  deleted : ∀ packages out printed, step = .apk (.del packages) out → (Apk.runApk s (.del packages) out).1 = .ok printed →
    ∀ pkg ∈ packages, pkg ∉ getDefaultPackages → ∀ shown ∈ s'.info, pkg ∉ shown
  /-- A command that fails leaves what is shown unchanged. -/
  failed : ∀ cmd out, step = .apk cmd out → (Apk.runApk s cmd out).1 = .err → s'.info = s.info
  /-- A reinitialisation installs the default packages and those that are shown. -/
  reinit : step = .reinit → ∀ shown ∈ s.info, ∃ names ∈ s.installedPackages,
    ∀ name, name ∈ names ↔ ∃ pkg, (pkg ∈ getDefaultPackages ∨ pkg ∈ shown) ∧ name = utf8 pkg

/-- The name of a package. -/
def PlainName (pkg : List Char) : Prop := isPackageName (utf8 pkg) = true

/-- The packages in the config files are names, and both libraries find the same ones in the user's file. -/
structure ApkState.PlainNames (s : ApkState φ) : Prop where
  global : ∀ pkg ∈ s.globalPrefs.customPackages, PlainName pkg
  user : ∀ userPrefs ∈ s.userPrefs, ∀ pkg ∈ userPrefs.customPackages, PlainName pkg
  alike : ∀ userPrefs ∈ s.userPrefs, s.loadCustomPackages = userPrefs.customPackages

/-- The steps for which the global file is of no matter: a package that is deleted is not in it, what is in it has been copied into
the user's file when the root filesystem is made, and the user's file is not left half written. -/
def ApkStep.Fits (s : ApkState φ) : ApkStep φ → Prop
  | .reinit => ∀ pkg ∈ s.globalPrefs.customPackages, pkg ∈ getDefaultPackages ∨ pkg ∈ s.loadCustomPackages
  | .apk cmd out =>
    (match cmd with
      | .info => True
      | .add packages => ∀ pkg ∈ packages, PlainName pkg
      | .del packages => ∀ pkg ∈ packages, pkg ∉ getDefaultPackages → pkg ∉ s.globalPrefs.customPackages) ∧
    ∀ left, out.save = .failed left → left = s.userFile

end

end Anylinuxfs
