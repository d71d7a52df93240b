import Anylinuxfs.Decrypt
import Anylinuxfs.DiskImage

/-!
# Decryption for the list

What `list` opens in its virtual machine (`diskutil/mod.rs`): the devices that `PvCollector` remembers while the disks are listed,
how they are attached, and the commands of `decrypt_script`, which finds each encrypted device again by its path on the host.
-/

namespace Anylinuxfs

open DiskImage (PlainBlockDevice rawImagePlainBlock)

/-! ## Collecting -/

/-- The arguments of `try_collect`. -/
structure CollectCall where
  devInfo : DevInfo
  devIdent : List Char
  diskPath : List Char
  fsType : List Char

/-- `PvCollector`. -/
structure PvCollector where
  devInfos : List DevInfo := []
  devIdents : List (List Char) := []
  encPartitions : List (List Char) := []
  assembleRaid : Bool := false
  decryptAll : Bool
  hasEncFilter : Bool

/-- `PvCollector::new`. -/
def PvCollector.new (encPartitions : Option (List (List Char))) : PvCollector where
  decryptAll := encPartitions.any fun p => p.head? = some "all".toList
  hasEncFilter := encPartitions.isSome

/-- `PvCollector::try_collect`, without its result, which no caller uses. -/
def PvCollector.tryCollect (pv : PvCollector) (call : CollectCall) : PvCollector :=
  let isEnc := isEncryptedFs call.fsType
  let isRaid := call.fsType = "linux_raid_member".toList
  let isLvm := call.fsType = "LVM2_member".toList
  if isLvm ∨ isRaid ∨ (pv.hasEncFilter = true ∧ isEnc = true) then
    { pv with
      devInfos := pv.devInfos ++ [call.devInfo]
      devIdents := pv.devIdents ++ [call.devIdent]
      encPartitions := if pv.decryptAll = true ∧ isEnc = true then pv.encPartitions ++ [call.diskPath] else pv.encPartitions
      assembleRaid := pv.assembleRaid || isRaid }
  else pv

/-- The calls that `render_plain_block_tree` makes. -/
def blockCalls (fsTypes : List (List Char)) (block : PlainBlockDevice) : List CollectCall :=
  match block.ptType with
  | some _ => (block.partitions.filter fun partition => partition.fsType ∈ fsTypes).filterMap fun partition =>
      partition.devInfo.map fun devInfo => ⟨devInfo, block.ident, partition.pvDiskPath, partition.fsType⟩
  | none =>
    let fsType := block.fsType.getD []
    if fsType ∈ fsTypes then (block.devInfo.map fun devInfo => ⟨devInfo, block.ident, block.pvDiskPath, fsType⟩).toList else []

/-! ## The listed disks -/

/-- A block device, or a partition of one, that is shown: `diskutil` and sysfs give the name of the buffered device, and what is
shown where the probe finds no type is not the type of an encrypted file system. -/
structure ShownDevice where
  ident : List Char
  other : List Char
  buffered : ¬"rdisk".toList <+: ident
  notEncrypted : isEncryptedFs other = false

/-- The path of a shown device. -/
def ShownDevice.diskPath (dev : ShownDevice) : List Char := "/dev/".toList ++ dev.ident

/-- What the loop of `list_partitions` comes to: an image, with the name of its partition table if there is one, and a block device
without a table (`process_block_device`) or what is shown of one. -/
inductive ListedDisk where
  | qcow2 (path : List Char)
  | image (path imageName : List Char) (ptType : Option (List Char))
  | wholeDevice (path diskName : List Char)
  | device (dev : ShownDevice)

/-- The devices of the images in the format qcow2, and what was collected. -/
structure Listing where
  qcow2Images : List DevInfo := []
  pv : PvCollector

/-- One turn of the loop; `env` is what the host answers. -/
def Listing.add (env : ∀ c, SysCall.Answer c) (fsTypes : List (List Char)) (listing : Listing) :
    ListedDisk → Except Bytes Listing
  | .qcow2 path => do
    let devInfo ← (DevInfo.unprobedImage (utf8 path) none).result env
    pure { listing with qcow2Images := listing.qcow2Images ++ [devInfo] }
  | .image path imageName ptType => do
    let probeDevs ← (DevInfo.probeImage (utf8 path)).result env
    pure { listing with
      pv := (blockCalls fsTypes (rawImagePlainBlock path imageName ptType probeDevs)).foldl PvCollector.tryCollect listing.pv }
  | .wholeDevice path diskName =>
    match (DevInfo.probeImage (utf8 path)).result env with
    | .error _ => pure listing
    | .ok probeDevs =>
      match probeDevs.head? with
      | none => pure listing
      | some whole =>
        match whole.fsType with
        | none => pure listing
        | some fsType =>
          if fsType ∈ fsTypes then pure { listing with pv := listing.pv.tryCollect ⟨whole, diskName, path, fsType⟩ }
          else pure listing
  | .device dev =>
    match (DevInfo.pv (utf8 dev.diskPath) false).result env with
    | .error _ => pure listing
    | .ok devInfo =>
      pure { listing with pv := listing.pv.tryCollect ⟨devInfo, dev.ident, dev.diskPath, devInfo.fsType.getD dev.other⟩ }

/-- The loop of `list_partitions`. -/
def listDisks (env : ∀ c, SysCall.Answer c) (fsTypes : List (List Char)) (encPartitions : Option (List (List Char)))
    (disks : List ListedDisk) : Except Bytes Listing :=
  disks.foldlM (Listing.add env fsTypes) { pv := .new encPartitions }

/-- `guest_dev_infos`: what is attached to the virtual machine, in this order. -/
def Listing.attached (listing : Listing) : List DevInfo := listing.qcow2Images ++ listing.pv.devInfos

/-- The partitions that `get_lsblk_info` is to decrypt. -/
def Listing.encPartitions (listing : Listing) (encPartitions : Option (List (List Char))) : Option (List (List Char)) :=
  if listing.pv.devInfos = [] then none
  else if listing.pv.decryptAll then some listing.pv.encPartitions
  else encPartitions

/-! ## The script -/

/-- Paths are compared by their components. -/
def samePath (path path' : Bytes) : Prop := components path = components path'

instance (path path' : Bytes) : Decidable (samePath path path') := inferInstanceAs (Decidable (_ = _))

/-- `virt_disk_to_decrypt`: the disk of the virtual machine and the type of the first device with a path. -/
def virtDiskToDecrypt (devInfo : List DevInfo) (partition : List Char) : Except (List Char) (List Char × List Char) :=
  match devInfo.findIdx? (fun di => samePath di.path (utf8 partition)) with
  | some idx =>
    match letters[idx]? with
    | none => .error "block device index out of range".toList
    | some letter =>
      match devInfo[idx]?.bind DevInfo.fsType with
      | none => .error "missing fs_type info".toList
      | some fsType => .ok (vdDisk [letter], fsType)
  | none => .error ("Partition ".toList ++ partition ++ " not found".toList)

/-- A command of the script. -/
structure DecryptCommand where
  op : String
  vdev : List Char
  name : List Char
  deriving DecidableEq, Repr

/-- The command as it stands in the script. -/
def DecryptCommand.text (cmd : DecryptCommand) : List Char :=
  "cryptsetup ".toList ++ cmd.op.toList ++ " ".toList ++ cmd.vdev ++ " ".toList ++ cmd.name ++ "; ".toList

/-- The command for the partition with the number `i`, if its type is that of an encrypted file system. -/
def decryptCommand (i : Nat) (vdev fsType : List Char) : Option DecryptCommand :=
  if fsType = "crypto_LUKS".toList then some ⟨"open", vdev, "luks".toList ++ Nat.toDigits 10 i⟩
  else if fsType = "BitLocker".toList then some ⟨"bitlkOpen", vdev, "btlk".toList ++ Nat.toDigits 10 i⟩
  else none

/-- The loop of `decrypt_script`, from the partition with the number `i` on. -/
def decryptFrom (devInfo : List DevInfo) : Nat → List (List Char) → Except (List Char) (List DecryptCommand)
  | _, [] => pure []
  | i, part :: rest => do
    let (vdev, fsType) ← virtDiskToDecrypt devInfo part
    let cmds ← decryptFrom devInfo (i + 1) rest
    pure ((decryptCommand i vdev fsType).toList ++ cmds)

/-- The commands of `decrypt_script`. -/
def decryptCommands (devInfo : List DevInfo) (partitions : Option (List (List Char))) :
    Except (List Char) (List DecryptCommand) :=
  match partitions with
  | none => pure []
  | some partitions => decryptFrom devInfo 0 partitions

/-- `decrypt_script`. -/
def decryptScript (devInfo : List DevInfo) (partitions : Option (List (List Char))) : Except (List Char) (List Char) :=
  (decryptCommands devInfo partitions).map fun cmds => cmds.flatMap DecryptCommand.text

/-! ## What is asked of the script -/

/-- The command is the operation for the type of the device, on a node with exactly its data: that of a disk which is attached with
its path, or of its partition of this disk. -/
def DecryptCommand.Opens (attached : List DevInfo) (di : DevInfo) (cmd : DecryptCommand) : Prop :=
  cmd.op = cryptsetupOp di.fsType ∧
    ∃ j disk, attached[j]? = some disk ∧ samePath disk.path di.path ∧ cmd.vdev = guestNode .linux j di

/-- The encrypted devices that were collected. -/
def Listing.encrypted (listing : Listing) : List DevInfo := listing.pv.devInfos.filter DevInfo.isEncrypted

/-- The script has exactly one command for each encrypted device that was collected, and it opens this device. -/
def Listing.Decrypts (listing : Listing) (encPartitions : Option (List (List Char))) : Prop :=
  ∃ cmds, decryptCommands listing.attached (listing.encPartitions encPartitions) = .ok cmds ∧
    ∃ ordered, ordered.Perm cmds ∧ List.Forall₂ (DecryptCommand.Opens listing.attached) listing.encrypted ordered

/-- The device is no partition of an image, and the first device that is attached with its path is one of the first 26 and has its
type. -/
structure Listing.FoundByPath (listing : Listing) (di : DevInfo) : Prop where
  whole : di.vmPartIdx = none
  first : ∃ i disk, listing.attached.findIdx? (fun disk => samePath disk.path di.path) = some i ∧ i < 26 ∧
    listing.attached[i]? = some disk ∧ disk.fsType = di.fsType

end Anylinuxfs
