import Anylinuxfs.Lib.Flock
import Anylinuxfs.Lib.Prog
import Anylinuxfs.Settings

/-!
# Claiming the devices of a virtual machine

`DevInfo`'s constructors (`devinfo.rs`), `resolve_disk_token` and `claim_devices` (`cmd_mount.rs`). They are programs over the
calls of `SysCall`; everything the host decides (which files exist, what a probe reads, whether a lock is granted) is an answer.
Errors are the texts of the outermost context. An open file is named by its open file description, which is what a lock
belongs to.
-/

namespace Anylinuxfs

open Interact (Prog)

/-! ## Calls -/

/-- An open file description: the instance that opened it, and a number that no other description has. -/
structure Desc where
  inst : Nat
  idx : Nat
  deriving DecidableEq, Repr

/-- What libblkid reads of a file system. -/
structure Probe where
  blockSize : Option Nat
  label : Option (List Char)
  fsType : Option (List Char)

/-- What becomes of `File::open(..)?.acquire_lock(..)`. Between the two calls a process does nothing that others could see, so
they are one call here; a file that could not be locked is closed again. -/
inductive Opened where
  | notOpened
  | refused
  | granted (disk : Desc)

/-- What `fork` returns. -/
inductive Forked where
  | failed | parent | child

/-- The parts of a command that touch no claimed device: the lock on the rootfs, the steps before the virtual machine is set
up, libkrun's context without the disks, the virtual machine itself, and the supervision of a mount. -/
inductive Stage where
  | acquireLockFile | vmImageInit | prepareVmEnvironment | startNetHelper | prepareKeyFile
  | krunCreateCtx | krunNetwork | startVm | waitpid | supervise
  deriving DecidableEq, Repr

/-- The calls of a process. -/
inductive SysCall where
  | mountTable
  | exists (path : Bytes)
  | isFile (path : Bytes)
  | unmountFs (path : Bytes)
  | blkidProbe (path : Bytes)
  | blkidPartitions (path : Bytes)
  | mediaWritable (path : Bytes)
  | openLocked (path : Bytes) (kind : Flock.Kind)
  | close (disk : Desc)
  | fork
  | krunAddDisk (path : Bytes) (format : DiskFormat) (readOnly : Bool)
  | dropCtx
  | stage (what : Stage)

/-- The answers to a call; a call whose error is passed on as it is answers with the text of the error. -/
@[reducible] def SysCall.Answer : SysCall → Type
  | .mountTable => Except Bytes (List Bytes)
  | .unmountFs _ | .stage _ => Except Bytes Unit
  | .exists _ | .isFile _ | .mediaWritable _ | .krunAddDisk _ _ _ => Bool
  | .blkidProbe _ => Option Probe
  | .blkidPartitions _ => Option (List Probe)
  | .openLocked _ _ => Opened
  | .fork => Forked
  | .close _ | .dropCtx => Unit

/-- A part of a process: its errors are texts. -/
abbrev Host := Prog SysCall SysCall.Answer Bytes

/-- One call. -/
def sys (c : SysCall) : Host c.Answer := Prog.perform c

/-- `anyhow::bail!`. -/
def bail {α : Type} (text : Bytes) : Host α := Prog.fail text

/-- The operator `?`. -/
def orBail {α : Type} : Except Bytes α → Host α
  | .ok a => pure a
  | .error text => bail text

/-! ## Devices -/

/-- `BUF_PREFIX`. -/
def bufPrefix : Bytes := bytes "/dev/disk"

/-- `RAW_PREFIX`. -/
def rawPrefix : Bytes := bytes "/dev/rdisk"

/-- `DevInfo::lv`. -/
def DevInfo.lv (path : List Char) (vmPath : List Char) : DevInfo :=
  { path := utf8 path, rpath := utf8 path, fsType := some "auto".toList, vmPath := vmPath }

/-- The buffered and the raw path of a device. -/
def devicePaths (path : Bytes) : Bytes × Bytes :=
  if bufPrefix.isPrefixOf path then (path, replace bufPrefix rawPrefix path)
  else if rawPrefix.isPrefixOf path then (replace rawPrefix bufPrefix path, path)
  else (path, path)

/-- `DevInfo::pv`. -/
def DevInfo.pv (path : Bytes) (isImage : Bool) : Host DevInfo := do
  if path = [] then bail (bytes "Empty device path")
  let (path, rpath) := devicePaths path
  match ← sys (.blkidProbe path) with
  | none => bail (bytes "Cannot probe " ++ path)
  | some probe =>
    let mediaWritable ← sys (.mediaWritable path)
    pure { path, rpath, isImage, blockSize := probe.blockSize, label := probe.label, fsType := probe.fsType,
           vmPath := "/dev/vda".toList, mediaWritable, diskFormat := .fromPath path, metadataProbed := true }

/-- `DevInfo::unprobed_image`. -/
def DevInfo.unprobedImage (path : Bytes) (partNum : Option Nat) : Host DevInfo := do
  if path = [] then bail (bytes "Empty image path")
  if partNum = some 0 then bail (bytes "Partition number must be greater than zero")
  pure { path, rpath := path, isImage := true, fsType := some "auto".toList,
         vmPath := "/dev/vda".toList ++ (partNum.map (Nat.toDigits 10)).getD [], vmPartIdx := partNum,
         diskFormat := .fromPath path }

/-- `DevInfo::probe_image`: the whole image, then its partitions. Every one of them is attached as the whole image. -/
def DevInfo.probeImage (path : Bytes) : Host (List DevInfo) := do
  if path = [] then bail (bytes "Empty image path")
  let dev (probe : Probe) : DevInfo :=
    { path, rpath := path, isImage := true, blockSize := probe.blockSize, label := probe.label, fsType := probe.fsType,
      diskFormat := .fromPath path, metadataProbed := true }
  match ← sys (.blkidProbe path) with
  | none => bail (bytes "Cannot open image with BlkidProbe")
  | some whole =>
    match ← sys (.blkidPartitions path) with
    | none => bail (bytes "Cannot get partition")
    | some parts =>
      pure ({ dev whole with vmPath := "/dev/vda".toList } :: parts.mapIdx (fun i part =>
        { dev part with vmPath := "/dev/vda".toList ++ Nat.toDigits 10 (i + 1), vmPartIdx := some (i + 1) }))

/-! ## Tokens -/

/-- `parse_image_partition_ident`: `<image_path>@s<N>`. -/
def parseImagePartitionIdent (s : List Char) : Option (List Char × Nat) :=
  match rfind "@s".toList s with
  | none => none
  | some atPos =>
    let imagePath := s.take atPos
    let suffix := s.drop (atPos + 2)
    if imagePath = [] then none
    else if suffix ≠ [] ∧ suffix.all Char.isDigit then (parseUsize suffix).map (fun n => (imagePath, n))
    else none

/-- The lock that is taken on a device. -/
def lockKind (readOnly : Bool) : Flock.Kind := if readOnly then .shared else .exclusive

/-- `File::open(dev_info.rdisk())` and `acquire_lock`, with the texts for the kind of file. -/
def openDisk (devInfo : DevInfo) (readOnly : Bool) (what : String) : Host Desc := do
  match ← sys (.openLocked devInfo.rpath (lockKind readOnly)) with
  | .notOpened => bail (bytes "Failed to open " ++ bytes what)
  | .refused => bail (bytes "Failed to acquire lock on " ++ bytes what)
  | .granted disk => pure disk

/-- The path of a block device: `disk7s1` is short for `/dev/disk7s1`. -/
def devPath (token : List Char) : List Char := if "/dev/".toList.isPrefixOf token then token else "/dev/".toList ++ token

/-- `resolve_disk_token`. -/
def resolveDiskToken (token : List Char) (readOnly : Bool) : Host (DevInfo × Desc) := do
  match parseImagePartitionIdent token with
  | some (imagePath, partNum) =>
    let image := utf8 imagePath
    if !(← sys (.exists image)) then bail (bytes "Image file not found: " ++ image)
    if DiskFormat.fromPath image = .qcow2 then
      let partitionInfo ← DevInfo.unprobedImage image (some partNum)
      let disk ← openDisk partitionInfo readOnly "image file"
      pure (partitionInfo, disk)
    else
      let probeDevs ← DevInfo.probeImage image
      -- a partition number of 0 would be the whole image
      match if partNum = 0 then none else probeDevs[partNum]? with
      | none =>
        bail (bytes "Partition " ++ decimal partNum ++ bytes " out of range (image has " ++ decimal (probeDevs.length - 1) ++
          bytes " partitions)")
      | some partitionInfo =>
        let disk ← openDisk partitionInfo readOnly "image file"
        pure (partitionInfo, disk)
  | none =>
    if ← sys (.isFile (utf8 token)) then
      let devInfo ← if DiskFormat.fromPath (utf8 token) = .qcow2 then DevInfo.unprobedImage (utf8 token) none
        else DevInfo.pv (utf8 token) true
      let disk ← openDisk devInfo readOnly "image file"
      pure (devInfo, disk)
    else
      let devInfo ← DevInfo.pv (utf8 (devPath token)) false
      let disk ← openDisk devInfo readOnly "device"
      pure (devInfo, disk)

/-! ## Claims -/

/-- A `Vec<File>` that is dropped: every file is closed. -/
def closeAll : List Desc → Host Unit
  | [] => pure ()
  | disk :: rest => do
    sys (.close disk)
    closeAll rest

/-- One token of an `lvm:` or `raid:` path. A block device that is mounted is refused after its lock was taken. -/
def claimMember (mountTable : List Bytes) (readOnly : Bool) (token : List Char) : Host (DevInfo × Desc) := do
  let (devInfo, disk) ← resolveDiskToken token readOnly
  if devInfo.isImage = false ∧ devInfo.path ∈ mountTable then
    sys (.close disk)
    bail (devInfo.path ++ bytes " is already mounted")
  pure (devInfo, disk)

/-- One token of a plain path. A block device that is mounted is unmounted first, if that is allowed. -/
def claimPlain (mountTable : List Bytes) (allowRemount readOnly : Bool) (token : List Char) : Host (DevInfo × Desc) := do
  if (parseImagePartitionIdent token).isSome then resolveDiskToken token readOnly
  else if ← sys (.isFile (utf8 token)) then resolveDiskToken token readOnly
  else
    let path := utf8 (devPath token)
    if !(← sys (.exists path)) then bail (bytes "disk " ++ path ++ bytes " not found")
    if path ∈ mountTable then
      if allowRemount then
        orBail (← sys (.unmountFs path))
      else bail (path ++ bytes " is already mounted")
    resolveDiskToken token readOnly

/-- The loop over the tokens; an error drops the files that were opened so far. -/
def claimLoop (claim : List Char → Host (DevInfo × Desc)) :
    List (List Char) → List DevInfo → List Desc → Host (List DevInfo × List Desc)
  | [], devInfos, disks => pure (devInfos, disks)
  | token :: rest, devInfos, disks => do
    let (devInfo, disk) ← (claim token).handle (fun e => do
      closeAll disks
      bail e)
    claimLoop claim rest (devInfos ++ [devInfo]) (disks ++ [disk])

/-- What `claim_devices` returns, with the configuration it has changed. -/
structure Claimed where
  config : MountConfig
  devInfos : List DevInfo
  mntDevInfo : DevInfo
  disks : List Desc

/-- The branches of `claim_devices` for the forms of a disk path. -/
def claimDiskPath (config : MountConfig) (mountTable : List Bytes) : Host Claimed := do
  let diskIdent := config.diskPath.splitOn ':'
  if "lvm:".toList.isPrefixOf config.diskPath then
    if diskIdent.length < 4 then bail (bytes "Invalid LVM disk path")
    let escape (name : List Char) := replace "-".toList "--".toList name
    let vmPath := "/dev/mapper/".toList ++ escape (diskIdent.getD 1 []) ++ "-".toList ++
      escape (diskIdent.getD (diskIdent.length - 1) [])
    let (devInfos, disks) ← claimLoop (claimMember mountTable config.readOnly)
      ((diskIdent.drop 2).take (diskIdent.length - 3)) [] []
    let assembleRaid := config.assembleRaid || devInfos.any (fun d => d.fsType = some "linux_raid_member".toList)
    pure ⟨{ config with assembleRaid }, devInfos, DevInfo.lv config.diskPath vmPath, disks⟩
  else if "raid:".toList.isPrefixOf config.diskPath then
    if diskIdent.length < 2 then bail (bytes "Invalid RAID disk path")
    let (devInfos, disks) ← claimLoop (claimMember mountTable config.readOnly) (diskIdent.drop 1) [] []
    pure ⟨{ config with assembleRaid := true }, devInfos, DevInfo.lv config.diskPath "/dev/md127".toList, disks⟩
  else if config.diskPath = [] then
    pure ⟨config, [], {}, []⟩
  else
    let (devInfos, disks) ← claimLoop (claimPlain mountTable config.allowRemount config.readOnly) diskIdent [] []
    -- `split` gives at least one token, so there is a first device
    pure ⟨config, devInfos, devInfos.headD {}, disks⟩

/-- The kernel with pages of 4K is used if it is asked for, and for f2fs with blocks of that size. -/
def chooseKernel (config : MountConfig) (mntDevInfo : DevInfo) : MountConfig :=
  if config.kernelPageSize = some .size4K ∨ (mntDevInfo.fsType = some "f2fs".toList ∧ mntDevInfo.blockSize = some 4096) then
    { config with common := { config.common with kernelFile := bytes "Image-4K" } }
  else config

/-- Media that cannot be written are used read-only. -/
def honourMedia (config : MountConfig) (mntDevInfo : DevInfo) : MountConfig :=
  if mntDevInfo.mediaWritable = false ∧ config.readOnly = false then { config with readOnly := true } else config

/-- `claim_devices`. -/
def claimDevices (config : MountConfig) : Host Claimed := do
  let mountTable ← orBail (← sys .mountTable)
  let claimed ← claimDiskPath config mountTable
  let mntDevInfo :=
    match config.fsDriver with
    | some fsDriver => { claimed.mntDevInfo with givenFsDriver := some fsDriver }
    | none => claimed.mntDevInfo
  pure { claimed with config := honourMedia (chooseKernel claimed.config mntDevInfo) mntDevInfo, mntDevInfo }

end Anylinuxfs
