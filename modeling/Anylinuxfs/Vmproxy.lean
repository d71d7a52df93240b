import Anylinuxfs.Decrypt

/-!
# The mount in the guest

`run` of `vmproxy` from the decrypted devices to the exports: volumes are activated, the file system and its label are detected
(`VmDiskContext`), the mount point is made, the file system is mounted and its paths are exported. A part of it is a program
over the calls of `Call`; what other programs print on the console is not a call, the lines of `vmproxy` itself are. Errors are
the texts of the outermost context.
-/

namespace Anylinuxfs

open Interact (Prog)

/-! ## Debug output -/

/-- `char::escape_debug` in a string; `isPrintable` tells the characters beyond ASCII that are shown as they are. -/
def escapeDebug (isPrintable : Char → Bool) (c : Char) : List Char :=
  if c = '\x00' then ['\\', '0']
  else if c = '\t' then ['\\', 't']
  else if c = '\r' then ['\\', 'r']
  else if c = '\n' then ['\\', 'n']
  else if c = '"' ∨ c = '\\' then ['\\', c]
  else if (0x20 ≤ c.toNat ∧ c.toNat < 0x7f) ∨ (0x7f < c.toNat ∧ isPrintable c = true) then [c]
  else ['\\', 'u', '\x7b'] ++ Nat.toDigits 16 c.toNat ++ ['\x7d']

/-- `{:?}` of a string. -/
def debugStr (isPrintable : Char → Bool) (s : List Char) : List Char := '"' :: s.flatMap (escapeDebug isPrintable) ++ ['"']

/-- `{:?}` of a list of strings. -/
def debugList (isPrintable : Char → Bool) (l : List (List Char)) : List Char :=
  '[' :: [',', ' '].intercalate (l.map (debugStr isPrintable)) ++ [']']

namespace Vmproxy

/-! ## Calls -/

/-- `MountArgs`, as far as the mount goes; the action is decoded. -/
structure MountArgs where
  diskPath : List Char
  mountName : List Char
  customMountPoint : Bool := false
  fsType : Option (List Char) := none
  fsDriver : Option (List Char) := none
  mountOptions : Option (List Char) := none
  assembleRaid : Bool := false
  metadataProbed : Bool := false
  action : Option CustomActionConfig := none
  nfsExportOpts : Option (List Char) := none
  ignorePermissions : Bool := false
  multiDevice : Bool := false
  verbose : Bool := false
  deriving DecidableEq, Repr

/-- `zfs::Mountpoint`. -/
structure Mountpoint where
  name : List Char
  path : List Char
  pool : List Char
  encrypted : Bool
  deriving DecidableEq, Repr

/-- What `blkid -s` is asked for. -/
inductive BlkidValue where
  | type | label
  deriving DecidableEq, Repr

/-- The scripts of a custom action that run before the exports. -/
inductive Hook where
  | beforeMount | afterMount
  deriving DecidableEq, Repr

/-- The calls of `run`. -/
inductive Call where
  | println (line : List Char)
  | mdadmAssemble
  | mdadmDetail
  | vgchange
  | blkid (dev : List Char) (value : BlkidValue)
  | modprobeZfs
  | btrfsDeviceScan
  | createDirAll (path : List Char)
  | importAllZpools (mountPointRoot : List Char) (readOnly : Bool)
  | executeAction (hook : Hook) (command : List Char)
  | mount (args : List (List Char))
  | mountDatasets (mountpoints : List Mountpoint)
  | effectiveOptions (diskPath : List Char)
  | statfs (path : List Char)
  | writeExports (path content : List Char)
  deriving DecidableEq, Repr

/-- The answers to a call: whether a command could be run, what it printed (decoded), or how it ended. -/
@[reducible] def Call.Answer : Call → Type
  | .println _ => Unit
  | .mdadmAssemble | .vgchange | .modprobeZfs | .btrfsDeviceScan | .createDirAll _ | .writeExports _ _ => Bool
  | .mdadmDetail | .blkid _ _ | .effectiveOptions _ => Option (List Char)
  | .importAllZpools _ _ => Except Bytes (Option Int × List Mountpoint × List (List Char))
  | .executeAction _ _ => Except Bytes Unit
  | .mount _ => Option (Option Int)
  | .mountDatasets _ => Except Bytes (Option Int)
  | .statfs _ => Option Nat

/-- A part of `run`. -/
abbrev Vm := Prog Call Call.Answer Bytes

/-- One call. -/
def ask (c : Call) : Vm c.Answer := Prog.perform c

/-- `println!`. -/
def println (line : List Char) : Vm Unit := ask (.println line)

/-- `.context(text)?` of a command that has no output. -/
def orContext (text : Bytes) (ok : Bool) : Vm Unit := if ok then pure () else Prog.fail text

/-- `.context(text)?` of a command with output. -/
def orContextWith {α : Type} (text : Bytes) : Option α → Vm α
  | some a => pure a
  | none => Prog.fail text

/-- The operator `?`. -/
def orThrow {α : Type} : Except Bytes α → Vm α
  | .ok a => pure a
  | .error e => Prog.fail e

/-- A part that is run under a condition. -/
def onlyIf (c : Prop) [Decidable c] (p : Vm Unit) : Vm Unit := if c then p else pure ()

/-! ## The disk -/

/-- `VmDiskContext`, from the decrypted devices on. -/
structure DiskContext where
  diskPath : List Char
  fsType : Option (List Char)
  fsDriver : Option (List Char)
  mountOptions : Option (List Char)
  mountName : List Char
  verbose : Bool
  metadataProbed : Bool
  mapperIdentPrefix : List Char
  assembleRaid : Bool
  isRaid : Bool := false
  isZfs : Bool := false
  zfsMountpoints : List Mountpoint := []
  zfsPools : List (List Char) := []
  deriving DecidableEq, Repr

/-- `VmDiskContext::new`. -/
def DiskContext.new (cli : MountArgs) : DiskContext where
  diskPath := cli.diskPath
  fsType := cli.fsType
  fsDriver := cli.fsDriver
  mountOptions := cli.mountOptions
  mountName := cli.mountName
  verbose := cli.verbose
  metadataProbed := cli.metadataProbed
  mapperIdentPrefix := Anylinuxfs.mapperIdentPrefix cli.fsType
  assembleRaid := cli.assembleRaid

/-- `is_read_only_set`. -/
def isReadOnlySet (mountOptions : List (List Char)) : Bool := "ro".toList ∈ mountOptions

/-- `<anylinuxfs-type:..>`. -/
def typeLine (fs : List Char) : List Char := "<anylinuxfs-type:".toList ++ fs ++ ['>']

/-- `<anylinuxfs-label:..>`. -/
def labelLine (label : List Char) : List Char := "<anylinuxfs-label:".toList ++ label ++ ['>']

/-- `<anylinuxfs-force-output:on>`. -/
def forceOutputOn : List Char := "<anylinuxfs-force-output:on>".toList

/-- `<anylinuxfs-force-output:off>`. -/
def forceOutputOff : List Char := "<anylinuxfs-force-output:off>".toList

/-- The line about the mounted file system. -/
def mountedLine (diskPath mountPoint fsType : List Char) : List Char :=
  '\'' :: diskPath ++ "' mounted successfully on '".toList ++ mountPoint ++ "', filesystem ".toList ++ fsType ++ ['.']

/-- The line with the arguments of `mount`. -/
def mountArgsLine (isPrintable : Char → Bool) (args : List (List Char)) : List Char :=
  "mount args: ".toList ++ debugList isPrintable args

namespace DiskContext

/-- `VmDiskContext::is_logical`. -/
def isLogical (dsk : DiskContext) : Bool := "/dev/mapper".toList.isPrefixOf dsk.diskPath ∨ dsk.isRaid = true

/-- `VmDiskContext::specified_read_only`. -/
def specifiedReadOnly (dsk : DiskContext) : Bool :=
  match dsk.mountOptions with
  | some opts => isReadOnlySet (opts.splitOn ',')
  | none => false

/-- The disk after `mdadm` has named the array. -/
def onArray (dsk : DiskContext) (mdPath : List Char) : DiskContext :=
  if mdPath ≠ [] ∧ "/dev/mapper".toList.isPrefixOf dsk.diskPath = false then { dsk with diskPath := mdPath } else dsk

/-- The part of `activate_volume_managers` about arrays. -/
def activateRaid (dsk : DiskContext) : Vm DiskContext := do
  if dsk.isRaid then
    orContext (bytes "Failed to run mdadm command") (← ask .mdadmAssemble)
    let mdPath ← orContextWith (bytes "Failed to get RAID device path from mdadm") (← ask .mdadmDetail)
    pure (dsk.onArray (trim mdPath))
  else pure dsk

/-- The disk of an encrypted file system is the mapped one. -/
def onMapper (dsk : DiskContext) : DiskContext :=
  if dsk.fsType.any isEncryptedFs then
    { dsk with diskPath := "/dev/mapper/".toList ++ dsk.mapperIdentPrefix ++ ['0'], fsType := none }
  else dsk

/-- `VmDiskContext::activate_volume_managers`. -/
def activateVolumeManagers (os : OsType) (dsk : DiskContext) : Vm DiskContext := do
  let dsk ← { dsk with isRaid := dsk.assembleRaid || "/dev/md".toList.isPrefixOf dsk.diskPath }.activateRaid
  onlyIf (os = .linux) (do orContext (bytes "Failed to run vgchange command") (← ask .vgchange))
  let dsk := dsk.onMapper
  pure { dsk with isZfs := dsk.fsType = some "zfs_member".toList }

/-- `VmDiskContext::detect_fs_type`. -/
def detectFsType (dsk : DiskContext) : Vm DiskContext := do
  if dsk.diskPath = [] then pure dsk
  else if dsk.fsType = some "auto".toList ∨ dsk.fsType = none then
    let fs ← orContextWith (bytes "Failed to run blkid command") (← ask (.blkid dsk.diskPath .type))
    println (typeLine (trim fs))
    pure { dsk with fsType := if trim fs ≠ [] then some (trim fs) else none }
  else if dsk.fsType = some "zfs_member".toList then
    println (typeLine "zfs".toList)
    pure { dsk with fsType := some "zfs".toList }
  else pure dsk

/-- The label is printed as a tag and becomes the name of the mount point. -/
def setLabel (dsk : DiskContext) (label : List Char) : Vm DiskContext := do
  println (labelLine label)
  pure { dsk with mountName := label }

/-- `VmDiskContext::resolve_mount_label`. -/
def resolveMountLabel (os : OsType) (dsk : DiskContext) : Vm DiskContext := do
  if dsk.diskPath = [] then pure dsk
  else if dsk.isZfs then
    onlyIf (os = .linux) (do orContext (bytes "Failed to load zfs module") (← ask .modprobeZfs))
    dsk.setLabel "zfs_root".toList
  else if dsk.metadataProbed = true ∧ dsk.isLogical = false then pure dsk
  else
    let label ← orContextWith (bytes "Failed to run blkid command") (← ask (.blkid dsk.diskPath .label))
    match pathSafeLabelName (trim label) with
    | some label => dsk.setLabel label
    | none => pure dsk

/-- A custom mount point keeps its name. -/
def resolveMountName (os : OsType) (dsk : DiskContext) (customMountPoint : Bool) : Vm DiskContext :=
  if customMountPoint then pure dsk else dsk.resolveMountLabel os

/-- `VmDiskContext::import_zfs_pools`. -/
def importZfsPools (dsk : DiskContext) (mountPoint : List Char) : Vm DiskContext := do
  if dsk.isZfs then
    let (status, mountpoints, zpools) ← orThrow (← ask (.importAllZpools mountPoint dsk.specifiedReadOnly))
    if status = some 0 then pure { dsk with zfsMountpoints := mountpoints, zfsPools := zpools }
    else Prog.fail (bytes "Importing zpools failed with error code " ++ codeText (bytes "unknown") status)
  else pure dsk

/-- The arguments of `mount`. -/
def mountArgs (dsk : DiskContext) (mountPoint : List Char) : List (List Char) :=
  ["-t".toList, (dsk.fsDriver <|> dsk.fsType).getD "auto".toList, dsk.diskPath, mountPoint] ++
    (match dsk.mountOptions with
      | some opts => ["-o".toList, opts]
      | none => []) ++
    (if dsk.verbose then ["-v".toList] else [])

/-- The mount itself: the datasets of the pools, or the file system. -/
def runMount (dsk : DiskContext) (mountPoint : List Char) : Vm (Option Int) := do
  if dsk.isZfs then orThrow (← ask (.mountDatasets dsk.zfsMountpoints))
  else orContextWith (bytes "Failed to run mount command") (← ask (.mount (dsk.mountArgs mountPoint)))

/-- The mount has to succeed. -/
def mountNow (dsk : DiskContext) (mountPoint : List Char) : Vm Unit := do
  let code ← dsk.runMount mountPoint
  if code = some 0 then pure ()
  else Prog.fail (bytes "Mounting " ++ utf8 dsk.diskPath ++ bytes " on " ++ utf8 mountPoint ++
    bytes " failed with error code " ++ codeText (bytes "unknown") code)

/-- `VmDiskContext::mount`; the output is not forced any more when the mount has failed. -/
def mount (isPrintable : Char → Bool) (dsk : DiskContext) (mountPoint : List Char) : Vm Unit := do
  onlyIf (dsk.isZfs = false) (println (mountArgsLine isPrintable (dsk.mountArgs mountPoint)))
  println forceOutputOn
  (dsk.mountNow mountPoint).ensuring (println forceOutputOff)
  println (mountedLine dsk.diskPath mountPoint (dsk.fsType.getD "unknown".toList))

end DiskContext

/-! ## Custom actions -/

/-- A script of a custom action, if it is not empty. -/
def runHook (hook : Hook) (name : String) (command : List Char) : Vm Unit := do
  if command = [] then pure ()
  else
    println forceOutputOn
    println ("Running ".toList ++ name.toList ++ " action: `".toList ++ command ++ ['`'])
    let result ← ask (.executeAction hook command)
    println forceOutputOff
    match result with
    | .ok () => pure ()
    | .error _ => Prog.fail (bytes name ++ bytes " action")

/-- `CustomActionRunner::before_mount`. -/
def beforeMount (action : Option CustomActionConfig) : Vm Unit :=
  match action with
  | some action => runHook .beforeMount "before_mount" action.beforeMount
  | none => pure ()

/-- `CustomActionRunner::after_mount`. -/
def afterMount (action : Option CustomActionConfig) : Vm Unit :=
  match action with
  | some action => runHook .afterMount "after_mount" action.afterMount
  | none => pure ()

/-! ## Exports -/

/-- `<anylinuxfs-nfs-export:..>`. -/
def exportLine (path : List Char) : List Char := "<anylinuxfs-nfs-export:".toList ++ path ++ ['>']

/-- `export_args_for_path`. -/
def exportArgsForPath (os : OsType) (path exportMode : List Char) (fsid : Nat) (argsOverride : Option (List Char)) :
    Vm (List Char) :=
  match os with
  | .linux => do
    let exportArgs := argsOverride.getD (exportMode ++ ",no_subtree_check,no_root_squash,insecure".toList)
    match ← ask (.statfs path) with
    | none => Prog.fail (bytes "statfs failed for " ++ utf8 path)
    | some fType =>
      -- a FUSE file system is exported with an identifier
      if fType = 0x65735546 ∧ findFrom "fsid=".toList exportArgs = none then
        pure (exportArgs ++ ",fsid=".toList ++ Nat.toDigits 10 fsid)
      else pure exportArgs
  | .freeBsd => pure (argsOverride.getD ((if exportMode = "ro".toList then "-ro ".toList else []) ++ "-maproot=root".toList))

/-- The arguments of every path. -/
def exportArgs (os : OsType) (exportMode : List Char) (argsOverride : Option (List Char)) :
    Nat → List (List Char) → Vm (List (List Char × List Char))
  | _, [] => pure []
  | i, path :: rest => do
    let args ← exportArgsForPath os path exportMode i argsOverride
    let others ← exportArgs os exportMode argsOverride (i + 1) rest
    pure ((path, args) :: others)

/-- A line of the exports file. -/
def exportsEntry (os : OsType) (path args : List Char) : List Char :=
  match os with
  | .linux => '"' :: path ++ "\"      *(".toList ++ args ++ ")\n".toList
  | .freeBsd => path ++ [' '] ++ args ++ ",network 0.0.0.0/0\n".toList

/-- The tags of the exports. -/
def printExports : List (List Char × List Char) → Vm Unit
  | [] => pure ()
  | (path, _) :: rest => do
    println (exportLine path)
    printExports rest

/-- The exports file. -/
def exportsPath : OsType → List Char
  | .linux => "/tmp/exports".toList
  | .freeBsd => "/etc/exports".toList

/-- `VmDiskContext::build_nfs_exports`. -/
def buildNfsExports (os : OsType) (dsk : DiskContext) (exportPaths : List (List Char)) (exportMode : List Char)
    (argsOverride : Option (List Char)) : Vm Unit := do
  let paths := (if dsk.isZfs then dsk.zfsMountpoints.map Mountpoint.path ++ exportPaths else exportPaths).foldl
    (fun set path => setInsert path set) []
  let allExports ← exportArgs os exportMode argsOverride 0 paths
  printExports allExports
  orContext (bytes "Failed to write to " ++ utf8 (exportsPath os))
    (← ask (.writeExports (exportsPath os) (allExports.flatMap (fun e => exportsEntry os e.1 e.2))))
  println ("Successfully initialized ".toList ++ exportsPath os ++ ['.'])

/-! ## The run -/

/-- Why a member of a volume group or of an array is not mounted. -/
def nonmountable (fs hint : String) : Bytes := bytes "`" ++ bytes fs ++ bytes "` partition cannot be mounted directly.\n" ++ bytes hint

/-- `fail_for_known_nonmountable_types`. -/
def failForKnownNonmountableTypes (fsType : Option (List Char)) : Vm Unit :=
  if fsType = some "LVM2_member".toList then
    Prog.fail (nonmountable "LVM2_member"
      "If the drive is encrypted, run `sudo anylinuxfs list -d all` to see available `lvm:...` volumes.")
  else if fsType = some "linux_raid_member".toList then
    Prog.fail (nonmountable "linux_raid_member" "Run `sudo anylinuxfs list` to see available `raid:...` volumes.")
  else pure ()

/-- The disk that is mounted, once it is known what it is. -/
def findDisk (os : OsType) (cli : MountArgs) : Vm DiskContext := do
  let dsk ← (DiskContext.new cli).activateVolumeManagers os
  let dsk ← dsk.detectFsType
  let dsk ← dsk.resolveMountName os cli.customMountPoint
  onlyIf (cli.multiDevice = true ∧ dsk.fsType = some "btrfs".toList) (do
    orContext (bytes "Failed to run btrfs command") (← ask .btrfsDeviceScan))
  failForKnownNonmountableTypes dsk.fsType
  pure dsk

/-- A directory under `/mnt`. -/
def underMnt (name : List Char) : List Char := "/mnt/".toList ++ name

/-- The line about the mount point. -/
def directoryLine (mountPoint : List Char) : List Char := "Directory '".toList ++ mountPoint ++ "' created successfully.".toList

/-- The mount point is made; there is none if the mount has no name. -/
def createMountPoint (dsk : DiskContext) : Vm (List Char) := do
  if dsk.mountName = [] then pure []
  else
    let mountPoint := underMnt dsk.mountName
    orContext (bytes "Failed to create directory '" ++ utf8 mountPoint ++ bytes "'") (← ask (.createDirAll mountPoint))
    println (directoryLine mountPoint)
    pure mountPoint

/-- The warning about encrypted datasets in a Linux guest. -/
def zfsWarning : List (List Char) :=
  [forceOutputOn,
    "Warning: Using encrypted ZFS datasets on Linux with ARM64 hardware results".toList,
    "in degraded performance due to GPL/CDDL license incompatibility.".toList,
    "You can use a FreeBSD VM which is not affected by this issue.".toList,
    "Simply run `anylinuxfs config --zfs-os freebsd` to set it as default for ZFS.".toList,
    "For more information, see https://github.com/openzfs/zfs/issues/12171".toList,
    forceOutputOff]

/-- Lines that are printed in a row. -/
def printlns : List (List Char) → Vm Unit
  | [] => pure ()
  | line :: rest => do
    println line
    printlns rest

/-- The line about the options in effect. -/
def optionsLine (opts : List Char) : List Char := "Effective mount options: ".toList ++ opts

/-- `<anylinuxfs-mount:changed-to-ro>`. -/
def changedToRo : List Char := "<anylinuxfs-mount:changed-to-ro>".toList

/-- Whether the file system is mounted read-only in the end. -/
def effectiveReadOnly (dsk : DiskContext) : Vm Bool := do
  let opts ← orContextWith (bytes "Failed to get mount options for " ++ utf8 dsk.diskPath) (← ask (.effectiveOptions dsk.diskPath))
  println (optionsLine (trim opts))
  let readOnly := if dsk.isZfs then dsk.specifiedReadOnly else isReadOnlySet ((trim opts).splitOn ',')
  onlyIf (dsk.specifiedReadOnly ≠ readOnly) (println changedToRo)
  pure readOnly

/-- `PathBuf::from_iter` of two paths. -/
def joined (base path : List Char) : List Char := joinAt '/' base path

/-- The exported paths: the one of the mount, and its subdirectories. -/
def exportPaths (action : Option CustomActionConfig) (mountPoint : List Char) : List (List Char) :=
  let exportPath :=
    match action with
    | some action => if action.overrideNfsExport ≠ [] then action.overrideNfsExport else mountPoint
    | none => mountPoint
  exportPath :: (action.elim [] CustomActionConfig.nfsExportSubdirs).map (joined exportPath)

/-- The arguments of the exports, if they are not the default ones. -/
def exportArgsOverride (cli : MountArgs) (exportMode : List Char) : Option (List Char) :=
  if cli.ignorePermissions = true ∧ cli.nfsExportOpts = none then
    some (exportMode ++ ",no_subtree_check,all_squash,anonuid=0,anongid=0,insecure".toList)
  else cli.nfsExportOpts

/-- `run` of `vmproxy`, from the decrypted devices to the start of the NFS server, with the exported paths; the first one is the
path of the mount. -/
def run (os : OsType) (isPrintable : Char → Bool) (cli : MountArgs) : Vm (List (List Char)) := do
  let dsk ← findDisk os cli
  let mountPoint ← createMountPoint dsk
  let dsk ← dsk.importZfsPools mountPoint
  onlyIf (os = .linux ∧ dsk.zfsMountpoints.any Mountpoint.encrypted = true) (printlns zfsWarning)
  beforeMount cli.action
  onlyIf (dsk.diskPath ≠ [] ∧ mountPoint ≠ []) (dsk.mount isPrintable mountPoint)
  afterMount cli.action
  let readOnly ← effectiveReadOnly dsk
  let exportMode := if readOnly then "ro".toList else "rw".toList
  buildNfsExports os dsk (exportPaths cli.action mountPoint) exportMode (exportArgsOverride cli exportMode)
  pure (exportPaths cli.action mountPoint)

end Vmproxy

end Anylinuxfs
