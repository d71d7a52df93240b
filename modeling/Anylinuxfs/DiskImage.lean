import Anylinuxfs.ClaimDevices
import Anylinuxfs.VolumeMap

/-!
# The partitions of a disk image

What `list` shows for a disk image (`raw_image_plain_block`, `qcow2_image_plain_block` and `render_plain_block_tree` of
`diskutil/mod.rs`), and the device in the virtual machine that a mount of `image@sN` uses (`resolve_disk_token`). A raw image is
read with libblkid on the host, an image in the format qcow2 with `lsblk` in a virtual machine. The columns for the size and the
name are left out.
-/

namespace Anylinuxfs

namespace DiskImage

/-! ## The list -/

/-- `PlainPartition`. -/
structure PlainPartition where
  number : Nat
  fsType : List Char
  label : List Char
  devInfo : Option DevInfo
  pvDiskPath : List Char

/-- `PlainBlockDevice`. -/
structure PlainBlockDevice where
  title : List Char
  ident : List Char
  ptType : Option (List Char)
  fsType : Option (List Char)
  label : Option (List Char)
  devInfo : Option DevInfo
  pvDiskPath : List Char
  partitions : List PlainPartition

/-- `raw_image_plain_block`, for an image whose partition table libblkid has named. -/
def rawImagePlainBlock (path imageName : List Char) (ptType : Option (List Char)) (probeDevs : List DevInfo) : PlainBlockDevice :=
  -- an image that was probed is the first of the devices
  let whole := probeDevs.headD {}
  { title := path ++ " (disk image):".toList, ident := imageName, ptType, fsType := whole.fsType, label := whole.label,
    devInfo := some whole, pvDiskPath := path,
    partitions := probeDevs.tail.mapIdx fun i devInfo =>
      { number := i + 1, fsType := devInfo.fsType.getD [], label := devInfo.label.getD [], devInfo := some devInfo,
        pvDiskPath := path } }

/-- `str::parse::<usize>`. -/
def usizeFromStr (s : List Char) : Option Nat :=
  let digits := if s.head? = some '+' then s.tail else s
  if digits ≠ [] ∧ digits.all Char.isDigit then parseUsize digits else none

/-- `str::strip_prefix`. -/
def stripPrefix (pat s : List Char) : Option (List Char) := if pat.isPrefixOf s then some (s.drop pat.length) else none

/-- `partition_number`. -/
def partitionNumber (parent child : LsBlkDevice) : Option Nat :=
  ((stripPrefix parent.name child.name).map fun suffix => (stripPrefix ['p'] suffix).getD suffix).bind usizeFromStr

/-- `qcow2_image_plain_block`. -/
def qcow2ImagePlainBlock (path imageName : List Char) (blkdev : LsBlkDevice) : PlainBlockDevice :=
  { title := path ++ " (disk image):".toList, ident := imageName, ptType := blkdev.pttype, fsType := blkdev.fstype,
    label := blkdev.label, devInfo := none, pvDiskPath := [],
    partitions := blkdev.children.mapIdx fun i child =>
      { number := (partitionNumber blkdev child).getD (i + 1), fsType := child.fstype.getD [], label := child.label.getD [],
        devInfo := none, pvDiskPath := [] } }

/-- What is written for a partition: `image@sN`. -/
def partitionIdent (image : List Char) (number : Nat) : List Char := image ++ "@s".toList ++ Nat.toDigits 10 number

/-- A row of the list. -/
structure Row where
  number : Nat
  fsType : List Char
  ident : List Char
  deriving DecidableEq, Repr

/-- The row of a partition, if its file system is one of those that are shown. -/
def partitionRow (fsTypes : List (List Char)) (ident : List Char) (partition : PlainPartition) : Option Row :=
  if partition.fsType ∈ fsTypes then some ⟨partition.number, partition.fsType, partitionIdent ident partition.number⟩ else none

/-- The rows of `render_plain_block_tree`: those of the partitions, or the one of the whole image if there is no table. -/
def renderPlainBlockTree (fsTypes : List (List Char)) (block : PlainBlockDevice) : List Row :=
  match block.ptType with
  | some _ => block.partitions.filterMap (partitionRow fsTypes block.ident)
  | none => if block.fsType.getD [] ∈ fsTypes then [⟨0, block.fsType.getD [], block.ident⟩] else []

/-- The row that is shown for the partition at an index. -/
def rowAt (fsTypes : List (List Char)) (block : PlainBlockDevice) (i : Nat) : Option Row :=
  block.ptType.bind fun _ => block.partitions[i]?.bind (partitionRow fsTypes block.ident)

/-! ## The partition table -/

/-- A partition: the number of its slot, and what libblkid reads of its file system. -/
structure Partition where
  slot : Nat
  probe : Probe

/-- A partition table: its used slots, in the order in which libblkid enumerates them. -/
structure PartitionTable where
  scheme : List Char
  partitions : List Partition
  distinct : (partitions.map Partition.slot).Nodup
  numbered : ∀ p ∈ partitions, 0 < p.slot ∧ p.slot < 2 ^ 64

/-- The name that the kernel gives to a partition of a disk. -/
def Partition.name (p : Partition) (disk : List Char) : List Char := disk ++ Nat.toDigits 10 p.slot

/-- The device of a partition of the disk that is mounted. -/
def Partition.device (p : Partition) : List Char := p.name "/dev/vda".toList

/-- What `lsblk` says of a partition. -/
def Partition.lsblk (p : Partition) (disk : List Char) : LsBlkDevice :=
  { name := p.name disk, fstype := p.probe.fsType, label := p.probe.label }

/-! ## Agreement -/

/-- The device in the virtual machine that a mount uses, if the token can be resolved. -/
def mountedDevice (env : ∀ c, SysCall.Answer c) (readOnly : Bool) (token : List Char) : Option (List Char) :=
  ((resolveDiskToken token readOnly).result env).toOption.map fun resolved => resolved.1.vmPath

/-- The image can be opened. -/
structure Opens (env : ∀ c, SysCall.Answer c) (readOnly : Bool) (path : List Char) : Prop where
  named : path ≠ []
  found : env (.exists (utf8 path)) = true
  opened : ∃ disk, env (.openLocked (utf8 path) (lockKind readOnly)) = .granted disk

/-- A raw image with a partition table: libblkid enumerates the used slots in the order of the table. -/
structure IsRaw (env : ∀ c, SysCall.Answer c) (readOnly : Bool) (path : List Char) (table : PartitionTable) : Prop
    extends Opens env readOnly path where
  format : DiskFormat.fromPath (utf8 path) = .raw
  probed : ∃ whole, env (.blkidProbe (utf8 path)) = some whole
  enumerated : env (.blkidPartitions (utf8 path)) = some (table.partitions.map Partition.probe)

/-- An image in the format qcow2 with a partition table: `lsblk` names the partitions by their slots, in any order. -/
structure IsQcow2 (env : ∀ c, SysCall.Answer c) (readOnly : Bool) (path : List Char) (blkdev : LsBlkDevice)
    (table : PartitionTable) : Prop extends Opens env readOnly path where
  format : DiskFormat.fromPath (utf8 path) = .qcow2
  scheme : blkdev.pttype = some table.scheme
  named_by_slot : ∃ order : List Partition, order.Perm table.partitions ∧
    blkdev.children = order.map fun p => p.lsblk blkdev.name

/-- The list shows a number for a partition of a raw image. -/
def RawShows (env : ∀ c, SysCall.Answer c) (fsTypes : List (List Char)) (path imageName : List Char) (table : PartitionTable)
    (p : Partition) (number : Nat) : Prop :=
  ∃ probeDevs i row, (DevInfo.probeImage (utf8 path)).result env = .ok probeDevs ∧ table.partitions[i]? = some p ∧
    rowAt fsTypes (rawImagePlainBlock path imageName (some table.scheme) probeDevs) i = some row ∧ row.number = number

/-- The list shows a number for a partition of an image in the format qcow2. -/
def Qcow2Shows (fsTypes : List (List Char)) (path imageName : List Char) (blkdev : LsBlkDevice) (p : Partition) (number : Nat) :
    Prop :=
  ∃ i row, blkdev.children[i]? = some (p.lsblk blkdev.name) ∧
    rowAt fsTypes (qcow2ImagePlainBlock path imageName blkdev) i = some row ∧ row.number = number

/-- The number that the list shows for a partition is the one that mounts it, and both formats show the same number for it. -/
structure PartitionsAgree (env : ∀ c, SysCall.Answer c) (readOnly : Bool) (fsTypes : List (List Char))
    (raw rawName qcow2 qcow2Name : List Char) (blkdev : LsBlkDevice) (table : PartitionTable) : Prop where
  raw_mounts : ∀ p ∈ table.partitions, ∀ number, RawShows env fsTypes raw rawName table p number →
    mountedDevice env readOnly (partitionIdent raw number) = some p.device
  qcow2_mounts : ∀ p ∈ table.partitions, ∀ number, Qcow2Shows fsTypes qcow2 qcow2Name blkdev p number →
    mountedDevice env readOnly (partitionIdent qcow2 number) = some p.device
  same_number : ∀ p ∈ table.partitions, ∀ number,
    RawShows env fsTypes raw rawName table p number ↔ Qcow2Shows fsTypes qcow2 qcow2Name blkdev p number

end DiskImage

end Anylinuxfs
