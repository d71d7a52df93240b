import Anylinuxfs.Text

/-!
# Settings and devices

The parts of `MountConfig` (`settings.rs`) and of `DevInfo` (`devinfo.rs`) that the modelled functions read.
-/

namespace Anylinuxfs

/-- The system the program was compiled for. -/
inductive HostOs where
  | macos | linux
  deriving DecidableEq, Repr

/-- `OSType`: the system a virtual machine runs. -/
inductive OsType where
  | linux | freeBsd
  deriving DecidableEq, Repr

/-- `KernelSource`. -/
structure KernelSource where
  bundleUrl : Option (List Char) := none
  imageUrl : Option (List Char) := none
  modulesUrl : Option (List Char) := none
  deriving DecidableEq, Repr

/-- `ImageSource`. -/
structure ImageSource where
  baseDir : List Char
  dockerRef : Option (List Char) := none
  isoUrl : Option (List Char) := none
  ociUrl : Option (List Char) := none
  kernel : KernelSource := {}
  osType : OsType
  setupScript : Option (List Char) := none
  deriving DecidableEq, Repr

/-- `ImageSource::effective_base_dir`. -/
def ImageSource.effectiveBaseDir (src : ImageSource) : List Char :=
  if src.baseDir ≠ [] then src.baseDir
  else
    match src.dockerRef with
    | some dockerRef => replace [':'] ['-'] (replace ['/'] ['-'] dockerRef)
    | none => []

/-- `PassphrasePromptConfig`. -/
inductive PassphrasePromptConfig where
  | askForEach | oneForAll
  deriving DecidableEq, Repr

/-- `Config`, with the defaults of the preferences. -/
structure Config where
  /-- `paths.home_dir` -/
  homeDir : Bytes
  /-- `paths.profile_path` -/
  profilePath : Bytes
  /-- `privilege.sudo_uid` -/
  sudoUid : Option Nat := none
  /-- The file name of `kernel.path`. -/
  kernelFile : Bytes := bytes "Image"
  /-- `kernel.os` -/
  kernelOs : OsType := .linux
  rwRootfs : Bool := false
  zfsOs : OsType := .linux
  /-- `preferences.images()`, by name -/
  images : List (List Char × ImageSource) := []
  /-- `preferences.default_image(OSType::FreeBSD)` -/
  defaultFreeBsdImage : List Char := "freebsd-15.0".toList
  passphraseConfig : PassphrasePromptConfig := .askForEach
  deriving DecidableEq, Repr

/-- `Config::fs_preferred_os`. -/
def Config.fsPreferredOs (config : Config) (fsType : List Char) : OsType :=
  if fsType = "ufs".toList then .freeBsd
  else if fsType = "zfs_member".toList then config.zfsOs
  else .linux

/-- `Config::with_image_source`. -/
def Config.withImageSource (config : Config) (src : ImageSource) : Config := { config with kernelOs := src.osType }

/-- `KernelPage`. -/
inductive KernelPage where
  | size4K | size16K
  deriving DecidableEq, Repr

/-- `CustomActionConfig`, with the defaults of a section that does not name a setting. -/
structure CustomActionConfig where
  description : List Char := []
  beforeMount : List Char := []
  afterMount : List Char := []
  beforeUnmount : List Char := []
  /-- texts of the form `KEY=value` -/
  environment : List (List Char) := []
  captureEnvironment : List (List Char) := []
  overrideNfsExport : List Char := []
  nfsExportSubdirs : List (List Char) := []
  requiredOs : Option OsType := none
  deriving DecidableEq, Repr

/-- `MountConfig`, with the defaults of the command line. -/
structure MountConfig where
  diskPath : List Char := []
  readOnly : Bool := false
  allowRemount : Bool := false
  customMountPoint : Option Bytes := none
  nfsOptions : List (List Char) := []
  fsDriver : Option (List Char) := none
  assembleRaid : Bool := false
  kernelPageSize : Option KernelPage := none
  keyFile : Option Bytes := none
  /-- `get_action()` -/
  action : Option CustomActionConfig := none
  common : Config
  deriving DecidableEq, Repr

/-- `MountConfig::custom_mount_name`. -/
def MountConfig.customMountName (config : MountConfig) : Option Bytes :=
  config.customMountPoint.map (fun name => (fileName name).getD (bytes "root"))

/-- `DiskFormat`. -/
inductive DiskFormat where
  | raw | qcow2
  deriving DecidableEq, Repr

/-- `DiskFormat::from_path`. -/
def DiskFormat.fromPath (path : Bytes) : DiskFormat :=
  if (bytes ".qcow2").isSuffixOf path then .qcow2 else .raw

/-- `DevInfo`, with the values of `DevInfo::default()`. -/
structure DevInfo where
  path : Bytes := []
  rpath : Bytes := []
  isImage : Bool := false
  blockSize : Option Nat := none
  label : Option (List Char) := none
  fsType : Option (List Char) := none
  vmPath : List Char := []
  vmPartIdx : Option Nat := none
  /-- The driver that was asked for; the type of the file system stands in for it. -/
  givenFsDriver : Option (List Char) := none
  /-- `da_info.media_writable` -/
  mediaWritable : Bool := true
  diskFormat : DiskFormat := .raw
  metadataProbed : Bool := false
  deriving DecidableEq, Repr

/-- `path_safe_label_name` (`common-utils`). -/
def pathSafeLabelName (name : List Char) : Option (List Char) :=
  let nameSubst := (name.map (fun c => if c = '/' then '-' else c)).map (fun c => if c = ' ' ∨ c = ':' then '_' else c)
  match nameSubst.dropWhile (· = '-') with
  | [] => none
  | rest => some rest

/-- `DevInfo::set_label`. -/
def DevInfo.setLabel (dev : DevInfo) (label : List Char) : DevInfo := { dev with label := some label }

/-- `DevInfo::auto_mount_name`. -/
def DevInfo.autoMountName (dev : DevInfo) : Bytes :=
  match dev.label.bind pathSafeLabelName with
  | some name => utf8 name
  | none =>
    let name := lastPiece colon (lastPiece slash dev.path)
    match dev.vmPartIdx with
    | some idx => name ++ bytes "_s" ++ decimal idx
    | none => name

end Anylinuxfs
