import Anylinuxfs.Lib.Serde
import Anylinuxfs.Netutil
import Anylinuxfs.Settings

/-!
# `settings.rs`: the preferences

The structures of a config file, how they are read and written, and `load_preferences`. A file that is not a config of the current
schema is read by an older one, converted and written back.

The crates that parse and print a document are not part of the repository; `Crates` names what the program uses of them. What
`derive(Deserialize)` and `derive(Serialize)` make of a structure is written out.
-/

namespace Anylinuxfs

open Serde

/-- The functions of the `toml`, `bstr` and `ipnet` crates that the preferences are read and written with. -/
class Crates where
  /-- The table that a text is the document of. -/
  parse : List Char → Option (List (String × Value))
  /-- The text of a table. -/
  print : List (String × Value) → Option (List Char)
  /-- `ByteSlice::to_str_lossy` -/
  toStrLossy : Bytes → List Char
  /-- `Ipv4Net::from_str` -/
  parseIpv4Net : List Char → Option Ipv4Net
  /-- `Ipv4Net::to_string` -/
  showIpv4Net : Ipv4Net → List Char

/-! ## Variants -/

/-- `NetHelper`. -/
inductive NetHelper where
  | gvProxy | vmNet
  deriving DecidableEq, Repr

/-- `VmnetOffloading`. -/
inductive VmnetOffloading where
  | auto | enabled | disabled
  deriving DecidableEq, Repr

instance : Deserialize OsType where
  de := deVariant [("Linux", .linux), ("FreeBSD", .freeBsd)]

instance : Serialize OsType where
  ser
    | .linux => .str "Linux".toList
    | .freeBsd => .str "FreeBSD".toList

instance : Deserialize NetHelper where
  de := deVariant [("gvproxy", .gvProxy), ("vmnet", .vmNet)]

instance : Serialize NetHelper where
  ser
    | .gvProxy => .str "gvproxy".toList
    | .vmNet => .str "vmnet".toList

instance : Deserialize VmnetOffloading where
  de := deVariant [("auto", .auto), ("enabled", .enabled), ("disabled", .disabled)]

instance : Serialize VmnetOffloading where
  ser
    | .auto => .str "auto".toList
    | .enabled => .str "enabled".toList
    | .disabled => .str "disabled".toList

instance : Deserialize PassphrasePromptConfig where
  de := deVariant [("ask_for_each", .askForEach), ("one_for_all", .oneForAll)]

instance : Serialize PassphrasePromptConfig where
  ser
    | .askForEach => .str "ask_for_each".toList
    | .oneForAll => .str "one_for_all".toList

instance [Crates] : Deserialize Ipv4Net where
  de
    | .str s => Crates.parseIpv4Net s
    | _ => none

instance [Crates] : Serialize Ipv4Net where
  ser net := .str (Crates.showIpv4Net net)

/-! ## Sections -/

/-- `AlpineConfig`. -/
structure AlpineConfig where
  customPackages : List (List Char) := []
  deriving DecidableEq, Repr

/-- `AlpineConfig::deserialize`. -/
def AlpineConfig.deserialize (v : Value) : Option AlpineConfig := do
  let f ← v.fields
  let customPackages ← f.required 0 "custom_packages"
  pure { customPackages }

instance : Deserialize AlpineConfig := ⟨AlpineConfig.deserialize⟩

/-- `AlpineConfig::serialize`. -/
def AlpineConfig.serialize (c : AlpineConfig) : Value :=
  record [("custom_packages", some (ser c.customPackages))]

instance : Serialize AlpineConfig := ⟨AlpineConfig.serialize⟩

/-- `KernelSource::deserialize`. -/
def KernelSource.deserialize (v : Value) : Option KernelSource := do
  let f ← v.fields
  let bundleUrl ← f.optional 0 "bundle_url"
  let imageUrl ← f.optional 1 "image_url"
  let modulesUrl ← f.optional 2 "modules_url"
  pure { bundleUrl, imageUrl, modulesUrl }

instance : Deserialize KernelSource := ⟨KernelSource.deserialize⟩

/-- `KernelSource::serialize`. -/
def KernelSource.serialize (k : KernelSource) : Value :=
  record [("bundle_url", k.bundleUrl.map ser), ("image_url", k.imageUrl.map ser), ("modules_url", k.modulesUrl.map ser)]

instance : Serialize KernelSource := ⟨KernelSource.serialize⟩

/-- `ImageSource::deserialize`. -/
def ImageSource.deserialize (v : Value) : Option ImageSource := do
  let f ← v.fields
  let baseDir ← f.required 0 "base_dir"
  let dockerRef ← f.optional 1 "docker_ref"
  let isoUrl ← f.optional 2 "iso_url"
  let ociUrl ← f.optional 3 "oci_url"
  let kernel ← f.required 4 "kernel"
  let osType ← f.required 5 "os_type"
  let setupScript ← f.optional 6 "setup_script"
  pure { baseDir, dockerRef, isoUrl, ociUrl, kernel, osType, setupScript }

instance : Deserialize ImageSource := ⟨ImageSource.deserialize⟩

/-- `ImageSource::serialize`. The values of a table are printed before its tables. -/
def ImageSource.serialize (i : ImageSource) : Value :=
  record [("base_dir", some (ser i.baseDir)), ("docker_ref", i.dockerRef.map ser), ("iso_url", i.isoUrl.map ser),
    ("oci_url", i.ociUrl.map ser), ("os_type", some (ser i.osType)), ("setup_script", i.setupScript.map ser),
    ("kernel", some (ser i.kernel))]

instance : Serialize ImageSource := ⟨ImageSource.serialize⟩

/-- `GvproxyConfig`. -/
structure GvproxyConfig where
  debug : Option Bool := none
  deriving DecidableEq, Repr

/-- `GvproxyConfig::deserialize`. -/
def GvproxyConfig.deserialize (v : Value) : Option GvproxyConfig := do
  let f ← v.fields
  let debug ← f.optional 0 "debug"
  pure { debug }

instance : Deserialize GvproxyConfig := ⟨GvproxyConfig.deserialize⟩

/-- `GvproxyConfig::serialize`. -/
def GvproxyConfig.serialize (c : GvproxyConfig) : Value :=
  record [("debug", c.debug.map ser)]

instance : Serialize GvproxyConfig := ⟨GvproxyConfig.serialize⟩

/-- `KrunConfig`. -/
structure KrunConfig where
  logLevelNumeric : Option UInt32 := none
  numVcpus : Option UInt8 := none
  ramSizeMib : Option UInt32 := none
  deriving DecidableEq, Repr

/-- `KrunConfig::deserialize`. -/
def KrunConfig.deserialize (v : Value) : Option KrunConfig := do
  let f ← v.fields
  let logLevelNumeric ← f.optional 0 "log_level"
  let numVcpus ← f.optional 1 "num_vcpus"
  let ramSizeMib ← f.optional 2 "ram_size_mib"
  pure { logLevelNumeric, numVcpus, ramSizeMib }

instance : Deserialize KrunConfig := ⟨KrunConfig.deserialize⟩

/-- `KrunConfig::serialize`. -/
def KrunConfig.serialize (c : KrunConfig) : Value :=
  record [("log_level", c.logLevelNumeric.map ser), ("num_vcpus", c.numVcpus.map ser),
    ("ram_size_mib", c.ramSizeMib.map ser)]

instance : Serialize KrunConfig := ⟨KrunConfig.serialize⟩

/-- `MiscConfig`. -/
structure MiscConfig where
  passphraseConfig : Option PassphrasePromptConfig := none
  zfsOs : Option OsType := none
  deriving DecidableEq, Repr

/-- `MiscConfig::deserialize`. -/
def MiscConfig.deserialize (v : Value) : Option MiscConfig := do
  let f ← v.fields
  let passphraseConfig ← f.optional 0 "passphrase_config"
  let zfsOs ← f.optional 1 "zfs_os"
  pure { passphraseConfig, zfsOs }

instance : Deserialize MiscConfig := ⟨MiscConfig.deserialize⟩

/-- `MiscConfig::serialize`. -/
def MiscConfig.serialize (c : MiscConfig) : Value :=
  record [("passphrase_config", c.passphraseConfig.map ser), ("zfs_os", c.zfsOs.map ser)]

instance : Serialize MiscConfig := ⟨MiscConfig.serialize⟩

/-- `NetworkPrefs`. -/
structure NetworkPrefs where
  helper : Option NetHelper := none
  vmnetPool : Option Ipv4Net := none
  vmnetOffloading : Option VmnetOffloading := none
  deriving DecidableEq, Repr

/-- `NetworkPrefs::deserialize`. -/
def NetworkPrefs.deserialize [Crates] (v : Value) : Option NetworkPrefs := do
  let f ← v.fields
  let helper ← f.optional 0 "helper"
  let vmnetPool ← f.default none 1 "vmnet_pool"
  let vmnetOffloading ← f.default none 2 "vmnet_offloading"
  pure { helper, vmnetPool, vmnetOffloading }

instance [Crates] : Deserialize NetworkPrefs := ⟨NetworkPrefs.deserialize⟩

/-- `NetworkPrefs::serialize`. -/
def NetworkPrefs.serialize [Crates] (c : NetworkPrefs) : Value :=
  record [("helper", c.helper.map ser), ("vmnet_pool", c.vmnetPool.map ser),
    ("vmnet_offloading", c.vmnetOffloading.map ser)]

instance [Crates] : Serialize NetworkPrefs := ⟨NetworkPrefs.serialize⟩

/-- `OSConfig`. -/
structure OsConfig where
  defaultImage : Option (List Char) := none
  deriving DecidableEq, Repr

/-- `OSConfig::deserialize`. -/
def OsConfig.deserialize (v : Value) : Option OsConfig := do
  let f ← v.fields
  let defaultImage ← f.optional 0 "default_image"
  pure { defaultImage }

instance : Deserialize OsConfig := ⟨OsConfig.deserialize⟩

/-- `OSConfig::serialize`. -/
def OsConfig.serialize (c : OsConfig) : Value :=
  record [("default_image", c.defaultImage.map ser)]

instance : Serialize OsConfig := ⟨OsConfig.serialize⟩

/-- `CustomActionConfig::deserialize`. -/
def CustomActionConfig.deserialize (v : Value) : Option CustomActionConfig := do
  let f ← v.fields
  let description ← f.default [] 0 "description"
  let beforeMount ← f.default [] 1 "before_mount"
  let afterMount ← f.default [] 2 "after_mount"
  let beforeUnmount ← f.default [] 3 "before_unmount"
  let environment ← f.default [] 4 "environment"
  let captureEnvironment ← f.default [] 5 "capture_environment"
  let overrideNfsExport ← f.default [] 6 "override_nfs_export"
  let nfsExportSubdirs ← f.default [] 7 "nfs_export_subdirs"
  let requiredOs ← f.optional 8 "required_os"
  pure { description, beforeMount, afterMount, beforeUnmount, environment, captureEnvironment, overrideNfsExport,
         nfsExportSubdirs, requiredOs }

instance : Deserialize CustomActionConfig := ⟨CustomActionConfig.deserialize⟩

/-- `CustomActionConfig::serialize`. -/
def CustomActionConfig.serialize (a : CustomActionConfig) : Value :=
  record [("description", some (ser a.description)), ("before_mount", some (ser a.beforeMount)),
    ("after_mount", some (ser a.afterMount)), ("before_unmount", some (ser a.beforeUnmount)),
    ("environment", some (ser a.environment)), ("capture_environment", some (ser a.captureEnvironment)),
    ("override_nfs_export", some (ser a.overrideNfsExport)), ("nfs_export_subdirs", some (ser a.nfsExportSubdirs)),
    ("required_os", a.requiredOs.map ser)]

instance : Serialize CustomActionConfig := ⟨CustomActionConfig.serialize⟩

/-- The errors of `CustomActionConfig::validate`. -/
inductive ActionError where
  /-- "nfs_export_subdirs entries must not be empty" -/
  | emptySubdir
  /-- "nfs_export_subdirs entry {:?} must be a relative path, not absolute" -/
  | absoluteSubdir (subdir : List Char)
  deriving DecidableEq, Repr

/-- `CustomActionConfig::validate`. -/
def CustomActionConfig.validate (a : CustomActionConfig) : Except ActionError CustomActionConfig := do
  a.nfsExportSubdirs.forM fun subdir =>
    if subdir = [] then .error .emptySubdir
    else if subdir.head? = some '/' then .error (.absoluteSubdir subdir)
    else .ok ()
  pure a

/-! ## The preferences -/

/-- `PrefsObject`. -/
structure PrefsObject where
  alpine : AlpineConfig := {}
  customActions : BTreeMap CustomActionConfig := .ofList []
  images : BTreeMap ImageSource := .ofList []
  gvproxy : GvproxyConfig := {}
  krun : KrunConfig := {}
  misc : MiscConfig := {}
  network : NetworkPrefs := {}
  linux : OsConfig := {}
  freebsd : OsConfig := {}
  /-- The settings of older versions, which had no sections. -/
  logLevelNumeric : Option UInt32 := none
  numVcpus : Option UInt8 := none
  ramSizeMib : Option UInt32 := none
  deriving DecidableEq

section

variable [Crates]

/-- `PrefsObject::deserialize`. -/
def PrefsObject.deserialize (v : Value) : Option PrefsObject := do
  let f ← v.fields
  let alpine ← f.default {} 0 "alpine"
  let customActions ← f.default (.ofList []) 1 "custom_actions"
  let images ← f.default (.ofList []) 2 "images"
  let gvproxy ← f.default {} 3 "gvproxy"
  let krun ← f.default {} 4 "krun"
  let misc ← f.default {} 5 "misc"
  let network ← f.default {} 6 "network"
  let linux ← f.default {} 7 "linux"
  let freebsd ← f.default {} 8 "freebsd"
  let logLevelNumeric ← f.optional 9 "log_level"
  let numVcpus ← f.optional 10 "num_vcpus"
  let ramSizeMib ← f.optional 11 "ram_size_mib"
  pure { alpine, customActions, images, gvproxy, krun, misc, network, linux, freebsd, logLevelNumeric, numVcpus, ramSizeMib }

instance : Deserialize PrefsObject := ⟨PrefsObject.deserialize⟩

/-- The document of some preferences. -/
def PrefsObject.doc (p : PrefsObject) : List (String × Value) :=
  fieldEntries [("log_level", p.logLevelNumeric.map ser), ("num_vcpus", p.numVcpus.map ser),
    ("ram_size_mib", p.ramSizeMib.map ser), ("alpine", some (ser p.alpine)), ("custom_actions", some (ser p.customActions)),
    ("images", some (ser p.images)), ("gvproxy", some (ser p.gvproxy)), ("krun", some (ser p.krun)),
    ("misc", some (ser p.misc)), ("network", some (ser p.network)), ("linux", some (ser p.linux)),
    ("freebsd", some (ser p.freebsd))]

end

/-- The errors of the preferences. -/
inductive PrefsError where
  /-- "Failed to parse Preferences from TOML string" -/
  | parse
  /-- "Failed to serialize Preferences to TOML" -/
  | serialize
  /-- "Failed to write config file {}" -/
  | write (path : Bytes)
  /-- "Error while converting config to the latest format" -/
  | converting (cause : PrefsError)
  /-- "Invalid custom action {:?}" -/
  | invalidAction (name : String) (cause : ActionError)
  /-- "Failed to parse config file {}" -/
  | configFile (path : Bytes) (cause : PrefsError)
  deriving DecidableEq, Repr

/-- `PrefsObject::validate`: the first action that is not valid, in the order of the names. -/
def PrefsObject.validate (p : PrefsObject) : Except PrefsError PrefsObject := do
  p.customActions.entries.forM fun (name, action) => action.validate.mapError (.invalidAction name) >>= fun _ => .ok ()
  pure p

/-- `convert_legacy_config`. -/
def convertLegacyConfig (config : PrefsObject) : PrefsObject :=
  { config with
    krun := { logLevelNumeric := config.logLevelNumeric <|> config.krun.logLevelNumeric
              numVcpus := config.numVcpus <|> config.krun.numVcpus
              ramSizeMib := config.ramSizeMib <|> config.krun.ramSizeMib }
    logLevelNumeric := none
    numVcpus := none
    ramSizeMib := none }

/-! ## The older schema -/

/-- `BString`. -/
structure BString where
  bytes : Bytes
  deriving DecidableEq, Repr

/-- A byte string is read from a text or from a sequence of bytes. -/
instance : Deserialize BString where
  de
    | .str s => some ⟨utf8 s⟩
    | .array vs => (vs.mapM de).map .mk
    | _ => none

/-- `CustomActionConfigOld`. -/
structure CustomActionConfigOld where
  description : BString
  beforeMount : BString
  afterMount : BString
  beforeUnmount : BString
  environment : List BString
  captureEnvironment : List BString
  overrideNfsExport : List Char
  deriving DecidableEq, Repr

/-- `CustomActionConfigOld::deserialize`. -/
def CustomActionConfigOld.deserialize (v : Value) : Option CustomActionConfigOld := do
  let f ← v.fields
  let description ← f.default ⟨[]⟩ 0 "description"
  let beforeMount ← f.default ⟨[]⟩ 1 "before_mount"
  let afterMount ← f.default ⟨[]⟩ 2 "after_mount"
  let beforeUnmount ← f.default ⟨[]⟩ 3 "before_unmount"
  let environment ← f.default [] 4 "environment"
  let captureEnvironment ← f.default [] 5 "capture_environment"
  let overrideNfsExport ← f.default [] 6 "override_nfs_export"
  pure { description, beforeMount, afterMount, beforeUnmount, environment, captureEnvironment, overrideNfsExport }

instance : Deserialize CustomActionConfigOld := ⟨CustomActionConfigOld.deserialize⟩

/-- `PrefsObjectOld`. -/
structure PrefsObjectOld where
  alpine : AlpineConfig
  customActions : BTreeMap CustomActionConfigOld
  images : BTreeMap ImageSource
  gvproxy : GvproxyConfig
  krun : KrunConfig
  misc : MiscConfig
  logLevelNumeric : Option UInt32
  numVcpus : Option UInt8
  ramSizeMib : Option UInt32
  deriving DecidableEq

/-- `PrefsObjectOld::deserialize`. -/
def PrefsObjectOld.deserialize (v : Value) : Option PrefsObjectOld := do
  let f ← v.fields
  let alpine ← f.default {} 0 "alpine"
  let customActions ← f.default (.ofList []) 1 "custom_actions"
  let images ← f.default (.ofList []) 2 "images"
  let gvproxy ← f.default {} 3 "gvproxy"
  let krun ← f.default {} 4 "krun"
  let misc ← f.default {} 5 "misc"
  let logLevelNumeric ← f.optional 6 "log_level"
  let numVcpus ← f.optional 7 "num_vcpus"
  let ramSizeMib ← f.optional 8 "ram_size_mib"
  pure { alpine, customActions, images, gvproxy, krun, misc, logLevelNumeric, numVcpus, ramSizeMib }

instance : Deserialize PrefsObjectOld := ⟨PrefsObjectOld.deserialize⟩

section

variable [Crates]

/-- `to_str_lossy().into()`. -/
def BString.toText (s : BString) : List Char := Crates.toStrLossy s.bytes

/-- `CustomActionConfig::from`. -/
def CustomActionConfig.ofOld (old : CustomActionConfigOld) : CustomActionConfig where
  description := old.description.toText
  beforeMount := old.beforeMount.toText
  afterMount := old.afterMount.toText
  beforeUnmount := old.beforeUnmount.toText
  environment := old.environment.map BString.toText
  captureEnvironment := old.captureEnvironment.map BString.toText
  overrideNfsExport := old.overrideNfsExport
  nfsExportSubdirs := []
  requiredOs := none

/-- `PrefsObject::from`. -/
def PrefsObject.ofOld (value : PrefsObjectOld) : PrefsObject where
  alpine := value.alpine
  customActions := value.customActions.map .ofOld
  images := value.images
  gvproxy := value.gvproxy
  krun := value.krun
  misc := value.misc
  network := {}
  linux := {}
  freebsd := {}
  logLevelNumeric := value.logLevelNumeric
  numVcpus := value.numVcpus
  ramSizeMib := value.ramSizeMib

/-! ## Loading -/

/-- The texts of the files. A file that cannot be read, or that is not a text, has none. -/
abbrev Files := Bytes → Option (List Char)

/-- How `fs::write` ends: it truncates the file before it writes, so a failure may leave any part of the new text. -/
inductive WriteOutcome where
  | done
  | failed (left : Option (List Char))
  deriving DecidableEq, Repr

/-- `toml::from_str`. -/
def fromStr (α : Type) [Deserialize α] (text : List Char) : Option α :=
  (Crates.parse text).bind (fun doc => de (.table doc))

variable (write : Bytes → WriteOutcome)

/-- `save_preferences`. -/
def savePreferences (preferences : PrefsObject) (path : Bytes) (files : Files) : Except PrefsError Unit × Files :=
  match Crates.print preferences.doc with
  | none => (.error .serialize, files)
  | some configStr =>
    match write path with
    | .done => (.ok (), Function.update files path (some configStr))
    | .failed left => (.error (.write path), Function.update files path left)

/-- `parse_toml_config`. -/
def parseTomlConfig (configStr : List Char) (path : Bytes) (files : Files) : Except PrefsError PrefsObject × Files :=
  match fromStr PrefsObject configStr with
  | some config => (config.validate, files)
  | none =>
    match fromStr PrefsObjectOld configStr with
    | none => (.error .parse, files)
    | some config =>
      let fixedConfig := PrefsObject.ofOld config
      match savePreferences write fixedConfig path files with
      | (.error e, files) => (.error (.converting e), files)
      | (.ok (), files) => (fixedConfig.validate, files)

/-- How `load_preferences` ends: there are two places for preferences, and a third file that can be read is an index out of
bounds. -/
inductive LoadResult where
  | ok (preferences : PrefsObject × PrefsObject)
  | err (e : PrefsError)
  | panic

/-- `result_config[cfg_idx] = config`. -/
def setConfig (result : PrefsObject × PrefsObject) (cfgIdx : Nat) (config : PrefsObject) : Option (PrefsObject × PrefsObject) :=
  match cfgIdx with
  | 0 => some (config, result.2)
  | 1 => some (result.1, config)
  | _ => none

/-- The loop of `load_preferences`, from the file at `cfgIdx` on. -/
def loadFrom (cfgIdx : Nat) (result : PrefsObject × PrefsObject) : List Bytes → Files → LoadResult × Files
  | [], files => (.ok result, files)
  | path :: paths, files =>
    match files path with
    | none => loadFrom (cfgIdx + 1) result paths files
    | some configStr =>
      match parseTomlConfig write configStr path files with
      | (.error e, files) => (.err (.configFile path e), files)
      | (.ok config, files) =>
        match setConfig result cfgIdx (convertLegacyConfig config) with
        | none => (.panic, files)
        | some result => loadFrom (cfgIdx + 1) result paths files

/-- `load_preferences`. -/
def loadPreferences (paths : List Bytes) (files : Files) : LoadResult × Files := loadFrom write 0 ({}, {}) paths files

end

/-! ## What loading must keep

A document gives a setting a value, or does not name it. Preferences agree with a document if every setting that the document
names has the value it is given there; a setting that the document gives a value of another type is in no preferences. A text of
an action may be given as its bytes. -/

/-- The byte string of a text. -/
def BString.ofText (s : List Char) : BString := ⟨utf8 s⟩

/-- The preferences have what a section of packages names. -/
structure AlpineConfig.Agrees (v : Value) (c : AlpineConfig) : Prop where
  customPackages : Kept (v.setting 0 "custom_packages") c.customPackages

/-- The action has what a section names. -/
structure CustomActionConfig.Agrees (v : Value) (a : CustomActionConfig) : Prop where
  description : Kept (v.setting 0 "description") (BString.ofText a.description)
  beforeMount : Kept (v.setting 1 "before_mount") (BString.ofText a.beforeMount)
  afterMount : Kept (v.setting 2 "after_mount") (BString.ofText a.afterMount)
  beforeUnmount : Kept (v.setting 3 "before_unmount") (BString.ofText a.beforeUnmount)
  environment : Kept (v.setting 4 "environment") (a.environment.map BString.ofText)
  captureEnvironment : Kept (v.setting 5 "capture_environment") (a.captureEnvironment.map BString.ofText)
  overrideNfsExport : Kept (v.setting 6 "override_nfs_export") a.overrideNfsExport
  nfsExportSubdirs : Kept (v.setting 7 "nfs_export_subdirs") a.nfsExportSubdirs
  requiredOs : Kept (v.setting 8 "required_os") a.requiredOs

/-- The kernel has what a section names. -/
structure KernelSource.Agrees (v : Value) (k : KernelSource) : Prop where
  bundleUrl : Kept (v.setting 0 "bundle_url") k.bundleUrl
  imageUrl : Kept (v.setting 1 "image_url") k.imageUrl
  modulesUrl : Kept (v.setting 2 "modules_url") k.modulesUrl

/-- The image has what a section names. -/
structure ImageSource.Agrees (v : Value) (i : ImageSource) : Prop where
  baseDir : Kept (v.setting 0 "base_dir") i.baseDir
  dockerRef : Kept (v.setting 1 "docker_ref") i.dockerRef
  isoUrl : Kept (v.setting 2 "iso_url") i.isoUrl
  ociUrl : Kept (v.setting 3 "oci_url") i.ociUrl
  kernel : ∀ k ∈ v.setting 4 "kernel", i.kernel.Agrees k
  osType : Kept (v.setting 5 "os_type") i.osType
  setupScript : Kept (v.setting 6 "setup_script") i.setupScript

/-- The preferences have what the section names. -/
structure GvproxyConfig.Agrees (v : Value) (c : GvproxyConfig) : Prop where
  debug : Kept (v.setting 0 "debug") c.debug

/-- The preferences have what the section names. -/
structure KrunConfig.Agrees (v : Value) (c : KrunConfig) : Prop where
  logLevelNumeric : Kept (v.setting 0 "log_level") c.logLevelNumeric
  numVcpus : Kept (v.setting 1 "num_vcpus") c.numVcpus
  ramSizeMib : Kept (v.setting 2 "ram_size_mib") c.ramSizeMib

/-- The preferences have what the section names. -/
structure MiscConfig.Agrees (v : Value) (c : MiscConfig) : Prop where
  passphraseConfig : Kept (v.setting 0 "passphrase_config") c.passphraseConfig
  zfsOs : Kept (v.setting 1 "zfs_os") c.zfsOs

/-- The preferences have what the section names. -/
structure NetworkPrefs.Agrees [Crates] (v : Value) (c : NetworkPrefs) : Prop where
  helper : Kept (v.setting 0 "helper") c.helper
  vmnetPool : Kept (v.setting 1 "vmnet_pool") c.vmnetPool
  vmnetOffloading : Kept (v.setting 2 "vmnet_offloading") c.vmnetOffloading

/-- The preferences have what the section of an operating system names. -/
structure OsConfig.Agrees (v : Value) (c : OsConfig) : Prop where
  defaultImage : Kept (v.setting 0 "default_image") c.defaultImage

/-- Every entry of a section of named entries is in the map, and agrees. -/
def EntriesAgree {α : Type} (agrees : Value → α → Prop) (v : Value) (m : BTreeMap α) : Prop :=
  ∀ kvs ∈ v.entries, ∀ name, ∀ w ∈ kvs.lookup name, ∃ x ∈ m.get name, agrees w x

/-- The preferences agree with every setting that the document names. -/
structure PrefsObject.Agrees [Crates] (doc : List (String × Value)) (p : PrefsObject) : Prop where
  alpine : ∀ v ∈ doc.lookup "alpine", p.alpine.Agrees v
  customActions : ∀ v ∈ doc.lookup "custom_actions", EntriesAgree CustomActionConfig.Agrees v p.customActions
  images : ∀ v ∈ doc.lookup "images", EntriesAgree ImageSource.Agrees v p.images
  gvproxy : ∀ v ∈ doc.lookup "gvproxy", p.gvproxy.Agrees v
  krun : ∀ v ∈ doc.lookup "krun", p.krun.Agrees v
  misc : ∀ v ∈ doc.lookup "misc", p.misc.Agrees v
  network : ∀ v ∈ doc.lookup "network", p.network.Agrees v
  linux : ∀ v ∈ doc.lookup "linux", p.linux.Agrees v
  freebsd : ∀ v ∈ doc.lookup "freebsd", p.freebsd.Agrees v
  logLevelNumeric : Kept (doc.lookup "log_level") p.logLevelNumeric
  numVcpus : Kept (doc.lookup "num_vcpus") p.numVcpus
  ramSizeMib : Kept (doc.lookup "ram_size_mib") p.ramSizeMib

/-- The older schema has every setting that the action names, and the bytes of its texts are texts. -/
structure CustomActionConfigOld.Covers (v : Value) : Prop where
  description : ∃ s, Kept (v.setting 0 "description") (BString.ofText s)
  beforeMount : ∃ s, Kept (v.setting 1 "before_mount") (BString.ofText s)
  afterMount : ∃ s, Kept (v.setting 2 "after_mount") (BString.ofText s)
  beforeUnmount : ∃ s, Kept (v.setting 3 "before_unmount") (BString.ofText s)
  environment : ∃ ss : List (List Char), Kept (v.setting 4 "environment") (ss.map BString.ofText)
  captureEnvironment : ∃ ss : List (List Char), Kept (v.setting 5 "capture_environment") (ss.map BString.ofText)
  nfsExportSubdirs : Kept (v.setting 7 "nfs_export_subdirs") ([] : List (List Char))
  requiredOs : v.setting 8 "required_os" = none

/-- The older schema has every setting that the document names. -/
structure PrefsObjectOld.Covers (doc : List (String × Value)) : Prop where
  customActions : ∀ v ∈ doc.lookup "custom_actions", ∀ kvs ∈ v.entries, ∀ name, ∀ w ∈ kvs.lookup name,
    CustomActionConfigOld.Covers w
  network : ∀ v ∈ doc.lookup "network",
    v.setting 0 "helper" = none ∧ v.setting 1 "vmnet_pool" = none ∧ v.setting 2 "vmnet_offloading" = none
  linux : ∀ v ∈ doc.lookup "linux", v.setting 0 "default_image" = none
  freebsd : ∀ v ∈ doc.lookup "freebsd", v.setting 0 "default_image" = none

/-- A text that stands in the place of another loses none of its settings: it is a config of the current schema, and agrees with
the document of the other. -/
def Rewrites [Crates] (text text' : List Char) : Prop :=
  ∃ doc ∈ Crates.parse text, ∃ p ∈ fromStr PrefsObject text', p.Agrees doc

/-- Loading keeps a file: it leaves the text as it is or rewrites it without loss, and does not touch it when it fails. -/
structure KeepsFile [Crates] (path : Bytes) (text : List Char) (outcome : LoadResult × Files) : Prop where
  kept : outcome.2 path = some text ∨ ∃ text' ∈ outcome.2 path, Rewrites text text'
  unchanged : ∀ e, outcome.1 = .err e → outcome.2 path = some text

end Anylinuxfs
