import Anylinuxfs.Lib.Pattern
import Anylinuxfs.NfsShare
import Anylinuxfs.PtyReader
import Anylinuxfs.Vmproxy

/-!
# The path of a share

Three functions derive the path of the exported share: `run` of `vmproxy` exports it, `NfsShareSetup::new` mounts it, and
`validated_mount_point` looks for it among the mounts. The guest knows the label of the file system and prints it as a tag; the
host reads the tag from the console and stores the label in its own `DevInfo`.
-/

namespace Anylinuxfs

/-! ## The host -/

/-- `api::RuntimeInfo`, as far as a mount point is validated. -/
structure RuntimeInfo where
  mountConfig : MountConfig
  devInfo : DevInfo
  vmHost : Bytes
  mountPoint : Option Bytes := none

/-- `expected_mount_point` in `validated_mount_point`. -/
def RuntimeInfo.expectedMountPoint (rtInfo : RuntimeInfo) : Bytes :=
  let shareName :=
    match rtInfo.mountConfig.customMountName with
    | some name => name
    | none => rtInfo.devInfo.autoMountName
  match rtInfo.mountConfig.action with
  | some action => if action.overrideNfsExport ≠ [] then utf8 action.overrideNfsExport else bytes "/mnt/" ++ shareName
  | none => bytes "/mnt/" ++ shareName

/-- What `vmproxy` is told of a mount by `start_vmproxy`. The name is bytes on the host and a text in the guest. -/
structure HandedOver (config : MountConfig) (devInfo : DevInfo) (cli : Vmproxy.MountArgs) : Prop where
  diskPath : cli.diskPath = devInfo.vmPath
  mountName : utf8 cli.mountName = config.customMountName.getD devInfo.autoMountName
  customMountPoint : cli.customMountPoint = config.customMountPoint.isSome
  fsType : cli.fsType = some (devInfo.fsType.getD "auto".toList)
  fsDriver : cli.fsDriver = config.fsDriver
  assembleRaid : cli.assembleRaid = config.assembleRaid
  metadataProbed : cli.metadataProbed = devInfo.metadataProbed
  action : cli.action = config.action

/-! ## The console -/

/-- A line that the reader takes for the tag of a label. -/
def PtyReader.readsAsLabel (line : List Char) : Bool := labelTag.isPrefixOf (tagged line)

/-- The lines of the console for a line that is printed. -/
def consoleLines (eol line : List Char) : List (List Char) := (line.splitOn '\n').map (· ++ eol)

/-- The lines that `vmproxy` prints. -/
def Vmproxy.Call.line? : Vmproxy.Call → Option (List Char)
  | .println line => some line
  | _ => none

/-- The label that the NFS server is reported ready with, after these lines. -/
def PtyReader.labelAfter (verbose : Bool) (lines : List (List Char)) : Option (List Char) :=
  (lines.foldl (fun s line => (next verbose s line).1) {}).fslabel

/-- The label that the guest finds for a disk: none if the host has read it, a fixed one for pools. -/
def Vmproxy.DiskContext.detected (dsk : Vmproxy.DiskContext) (env : ∀ c : Vmproxy.Call, c.Answer) : Option (List Char) :=
  if dsk.diskPath = [] then none
  else if dsk.isZfs then some "zfs_root".toList
  else if dsk.metadataProbed = true ∧ dsk.isLogical = false then none
  else (env (.blkid dsk.diskPath .label)).bind (fun text => pathSafeLabelName (trim text))

/-- The label that the guest finds, after the volumes are active. -/
def Vmproxy.detectedLabel (os : OsType) (cli : Vmproxy.MountArgs) (env : ∀ c : Vmproxy.Call, c.Answer) : Option (List Char) :=
  match ((DiskContext.new cli).activateVolumeManagers os).result env with
  | .error _ => none
  | .ok dsk => dsk.detected env

/-! ## What is asked of a mount -/

/-- A mount: the settings and the device on the host, the command line of the guest with the answers that `vmproxy` gets there,
and the lines of the console before the one that reports the NFS server ready, whoever prints them. -/
structure ShareRun where
  hostOs : HostOs := .macos
  config : MountConfig
  devInfo : DevInfo
  vmHost : Bytes := []
  sharedVolume : Bool := false
  guestOs : OsType := .linux
  isPrintable : Char → Bool := fun _ => true
  cli : Vmproxy.MountArgs
  env : ∀ c : Vmproxy.Call, c.Answer
  eol : List Char := ['\r', '\n']
  verbose : Bool := false
  lines : List (List Char)

namespace ShareRun

variable (r : ShareRun)

/-- The exported paths, if `vmproxy` gets to them. -/
def exported : Except Bytes (List (List Char)) := (Vmproxy.run r.guestOs r.isPrintable r.cli).result r.env

/-- The lines of `vmproxy`. -/
def printed : List (List Char) := ((Vmproxy.run r.guestOs r.isPrintable r.cli).trace r.env).filterMap Vmproxy.Call.line?

/-- The device on the host once the guest is ready. -/
def labelled : DevInfo :=
  match PtyReader.labelAfter r.verbose r.lines with
  | some label => r.devInfo.setLabel label
  | none => r.devInfo

/-- The share that the host mounts. -/
def sharePath : Bytes := (NfsShareSetup.new r.hostOs r.config r.vmHost r.labelled r.sharedVolume).sharePath

/-- The share that the host looks for. -/
def expected : Bytes := RuntimeInfo.expectedMountPoint ⟨r.config, r.labelled, r.vmHost, none⟩

/-- What is known of the programs around: the command line is the one that was handed over, a label of `blkid` has no control
characters and no white space but spaces, and the lines are those before the server is reported ready. -/
structure Valid : Prop where
  handed : HandedOver r.config r.devInfo r.cli
  labels : ∀ dev text, r.env (.blkid dev .label) = some text →
    ∀ c ∈ trim text, isControl c = false ∧ (isWhitespace c = true → c = ' ')
  eol : ∀ c ∈ r.eol, isWhitespace c = true
  notReady : ∀ line ∈ r.lines, findFrom PtyReader.readyText line = none

/-- The label that the guest finds. -/
def detected : Option (List Char) := Vmproxy.detectedLabel r.guestOs r.cli r.env

end ShareRun

/-- A text without the tag of a label. -/
def Untagged (text : List Char) : Prop := Pattern.Free PtyReader.labelTag text

/-- A text of which no line but the first has the tag of a label in it: behind another tag, the first line is read as that one. -/
def UntaggedBehind (text : List Char) : Prop := Untagged (text.dropWhile (· ≠ '\n'))

/-- The texts of a disk that `vmproxy` prints outside of tags. -/
def Vmproxy.DiskContext.texts (dsk : DiskContext) : List (List Char) :=
  dsk.mountName :: if dsk.diskPath = [] then []
    else dsk.diskPath :: dsk.fsType.toList ++ (if dsk.isZfs then [] else dsk.fsDriver.toList ++ dsk.mountOptions.toList)

namespace ShareRun

variable (r : ShareRun)

/-- The disk that the guest mounts, if it gets to it. -/
def disk : Except Bytes Vmproxy.DiskContext := (Vmproxy.findDisk r.guestOs r.cli).result r.env

/-- No text that `vmproxy` prints for the disk can be taken for the tag of a label. -/
structure Quiet (dsk : Vmproxy.DiskContext) : Prop where
  disk : ∀ text ∈ dsk.texts, Untagged text
  scripts : ∀ action ∈ r.cli.action, Untagged action.beforeMount ∧ Untagged action.afterMount
  options : ∀ text ∈ r.env (.effectiveOptions dsk.diskPath), Untagged text
  subdirs : ∀ action ∈ r.cli.action, ∀ subdir ∈ action.nfsExportSubdirs,
    UntaggedBehind (Vmproxy.joined (Vmproxy.underMnt dsk.mountName) subdir)
  datasets : ∀ status mountpoints pools, dsk.isZfs = true →
    r.env (.importAllZpools (Vmproxy.underMnt dsk.mountName) dsk.specifiedReadOnly) = .ok (status, mountpoints, pools) →
      ∀ mp ∈ mountpoints, UntaggedBehind mp.path

/-- The lines that the host takes for labels are lines of `vmproxy`, all of them, in its order; whatever else the guest's programs
and the scripts of a custom action print. -/
def OnlyLabels : Prop :=
  r.lines.filter PtyReader.readsAsLabel = (r.printed.flatMap (consoleLines r.eol)).filter PtyReader.readsAsLabel

/-- The path of the share does not depend on a label, or there is a name for it, the tags are unmistakable, and no other program
prints one. -/
def Settled : Prop :=
  r.config.customMountPoint.isSome = true ∨ (∃ action, r.config.action = some action ∧ action.overrideNfsExport ≠ []) ∨
    ((r.devInfo.autoMountName ≠ [] ∨ r.detected.isSome = true) ∧ (∀ dsk, r.disk = .ok dsk → r.Quiet dsk) ∧ r.OnlyLabels)

end ShareRun

end Anylinuxfs
