import Anylinuxfs.Lib.IndexMap
import Anylinuxfs.Text

/-!
# Volumes

`LvIdent`, `VolumeMap::from_lsblk` and `VolumeMap::build_entries` (`diskutil/mod.rs`): what `list` makes of the tree that `lsblk`
prints in the guest. A size is a text with a unit; the function that reads it goes through floating point, and is a parameter.
-/

namespace Anylinuxfs

/-! ## Names of logical volumes -/

/-- `LvIdent`. -/
structure LvIdent where
  vgName : List Char
  lvName : List Char
  deriving DecidableEq, Repr

/-- The loop of `LvIdent::from_str`: the name of the group, and what is left of the text. A turn takes the characters before a run
of hyphens and the run, so there are at most as many turns as characters. -/
def vgLoop : Nat → List Char → List Char × List Char
  | 0, s => ([], s)
  | turns + 1, s =>
    if s = [] then ([], []) else
      let dashes := (s.dropWhile (· ≠ '-')).takeWhile (· = '-')
      let rest := (s.dropWhile (· ≠ '-')).dropWhile (· = '-')
      let piece := s.takeWhile (· ≠ '-') ++ List.replicate (dashes.length / 2) '-'
      if dashes.length % 2 = 1 then (piece, rest)
      else (piece ++ (vgLoop turns rest).1, (vgLoop turns rest).2)

/-- `LvIdent::from_str`. -/
def LvIdent.fromStr (s : List Char) : Except (List Char) LvIdent :=
  let (vgName, rest) := vgLoop s.length s
  let lvName := replace "--".toList "-".toList rest
  if vgName = [] ∨ lvName = [] then .error ("Invalid LV identifier: ".toList ++ s) else .ok ⟨vgName, lvName⟩

/-- A name as it is in the device mapper's names. -/
def escapeDashes (name : List Char) : List Char := replace "-".toList "--".toList name

/-- The name that the device mapper gives to a logical volume. -/
def dmName (vgName lvName : List Char) : List Char := escapeDashes vgName ++ "-".toList ++ escapeDashes lvName

/-- The names of a group and a volume that LVM allows, as far as the device mapper's name depends on it. -/
def ValidNames (vgName lvName : List Char) : Prop := vgName ≠ [] ∧ lvName ≠ [] ∧ lvName.head? ≠ some '-'

/-! ## The tree -/

/-- `LsBlkDevice`, with the fields that are read. A device without children has none. -/
structure LsBlkDevice where
  name : List Char := []
  size : List Char := []
  fstype : Option (List Char) := none
  pttype : Option (List Char) := none
  label : Option (List Char) := none
  uuid : Option (List Char) := none
  children : List LsBlkDevice := []

/-- `LsBlk`. -/
structure LsBlk where
  blockdevices : List LsBlkDevice

/-- `BlkDevKind`. -/
inductive BlkDevKind where
  | simple | lvm | luks | raid | bitLocker
  deriving DecidableEq, Repr

/-- `BlkDevKind::from_fstype`. -/
def BlkDevKind.fromFstype (fstype : Option (List Char)) : BlkDevKind :=
  if fstype = some "LVM2_member".toList then .lvm
  else if fstype = some "crypto_LUKS".toList then .luks
  else if fstype = some "linux_raid_member".toList then .raid
  else if fstype = some "BitLocker".toList then .bitLocker
  else .simple

/-- What a device is a container for. -/
def LsBlkDevice.kind (dev : LsBlkDevice) : BlkDevKind := .fromFstype dev.fstype

/-- `VgEntry`. The volumes are keyed by the equality of `LsBlkDevice`, which compares the UUIDs. -/
structure VgEntry where
  size : UInt64 := 0
  devIdents : List (List Char) := []
  lvs : List (LsBlkDevice × List (List Char)) := []

/-- `RaidEntry`. -/
structure RaidEntry where
  devIdents : List (List Char) := []
  logicalVol : LsBlkDevice := {}

/-- `VolumeMap`: the groups by their names, the file systems of encrypted devices by the identifiers of the devices, and the RAID
volumes by their names. -/
structure VolumeMap where
  volGroups : List (List Char × VgEntry) := []
  simpleEncDevs : List (List Char × LsBlkDevice) := []
  raidVolumes : List (List Char × RaidEntry) := []

/-- The entry of a RAID volume after one of its members. -/
def RaidEntry.addMember (devIdent : List Char) (child : LsBlkDevice) (entry : RaidEntry) : RaidEntry where
  devIdents := entry.devIdents ++ [devIdent]
  logicalVol := child

section FromLsblk

variable (parseLvSize : List Char → UInt64)

/-- The entry of a group after a volume on one of its physical volumes: `j` is the place of the volume there. -/
def VgEntry.addLv (devIdent : List Char) (blkdev : LsBlkDevice) (j : Nat) (child : LsBlkDevice) (entry : VgEntry) : VgEntry where
  size := if j = 0 then entry.size + parseLvSize blkdev.size else entry.size
  devIdents := if j = 0 then entry.devIdents ++ [devIdent] else entry.devIdents
  lvs := IndexMap.upsert LsBlkDevice.uuid child [] (· ++ [devIdent]) entry.lvs

/-- What `iterate_children` notes of the child with the number `j` of a device. -/
def VolumeMap.addChild (devIdent : List Char) (blkdev : LsBlkDevice) (j : Nat) (child : LsBlkDevice) (volMap : VolumeMap) :
    VolumeMap :=
  if child.kind = .simple then
    match blkdev.kind with
    | .luks | .bitLocker =>
      { volMap with simpleEncDevs := IndexMap.upsert id devIdent child (fun _ => child) volMap.simpleEncDevs }
    | .raid =>
      { volMap with raidVolumes := IndexMap.upsert id child.name {} (RaidEntry.addMember devIdent child) volMap.raidVolumes }
    | .lvm =>
      match LvIdent.fromStr child.name with
      | .ok lvIdent =>
        let addLv := VgEntry.addLv parseLvSize devIdent blkdev j child
        { volMap with volGroups := IndexMap.upsert id lvIdent.vgName {} addLv volMap.volGroups }
      | .error _ => volMap
    | .simple => volMap
  else volMap

mutual

/-- `iterate_children`, from the child with the number `j` on. -/
def iterateFrom (devIdent : List Char) (blkdev : LsBlkDevice) : Nat → List LsBlkDevice → VolumeMap → VolumeMap
  | _, [], volMap => volMap
  | j, child :: rest, volMap =>
    iterateFrom devIdent blkdev (j + 1) rest
      (iterateChildren devIdent child (volMap.addChild parseLvSize devIdent blkdev j child))

/-- `iterate_children`. -/
def iterateChildren (devIdent : List Char) : LsBlkDevice → VolumeMap → VolumeMap
  | ⟨name, size, fstype, pttype, label, uuid, children⟩, volMap =>
    iterateFrom devIdent ⟨name, size, fstype, pttype, label, uuid, children⟩ 0 children volMap

end

/-- `VolumeMap::from_lsblk`. -/
def VolumeMap.fromLsblk (lsblk : LsBlk) (pvDevIdents : List (List Char)) : VolumeMap :=
  (lsblk.blockdevices.zip pvDevIdents).foldl (fun volMap (blkdev, devIdent) => iterateChildren parseLvSize devIdent blkdev volMap) {}

end FromLsblk

/-! ## The entries of the list -/

/-- The identifier in a row: the devices of a RAID volume, or a logical volume with its group and its devices. -/
inductive VolumeIdent where
  | raid (devIdents : List (List Char))
  | lv (devIdents : List (List Char)) (lvIdent : LvIdent)
  deriving DecidableEq, Repr

/-- The identifier as it is printed. -/
def VolumeIdent.text : VolumeIdent → List Char
  | .raid devIdents => [':'].intercalate devIdents
  | .lv devIdents lvIdent => lvIdent.vgName ++ ":".toList ++ [':'].intercalate devIdents ++ ":".toList ++ lvIdent.lvName

/-- A row of an entry: `format_partition_row`, with the size as `lsblk` prints it. -/
structure VolumeRow where
  index : Nat
  fsType : List Char
  label : List Char
  size : List Char
  ident : VolumeIdent
  deriving DecidableEq, Repr

/-- `Entry`: the headline, the size and the physical stores of a volume group, and the rows. -/
structure VolumeEntry where
  disk : List Char
  scheme : Option (UInt64 × List Char × List (List Char)) := none
  partitions : List VolumeRow
  deriving DecidableEq, Repr

/-- The headline of a volume group. -/
def vgHeadline (vgName : List Char) : List Char := "lvm:".toList ++ vgName ++ " (volume group):".toList

/-- The row of a volume; `unwrap` panics where its name is not that of a logical volume. -/
def lvRow (j : Nat) (child : LsBlkDevice) (devs : List (List Char)) : Option VolumeRow :=
  match LvIdent.fromStr child.name with
  | .ok lvIdent => some ⟨j + 1, child.fstype.getD [], child.label.getD [], child.size, .lv devs lvIdent⟩
  | .error _ => none

/-- The rows of a group, from the volume with the number `j` on. -/
def lvRows : Nat → List (LsBlkDevice × List (List Char)) → Option (List VolumeRow)
  | _, [] => some []
  | j, (child, devs) :: rest => do
    let row ← lvRow j child devs
    let rows ← lvRows (j + 1) rest
    pure (row :: rows)

/-- The entry of a RAID volume. -/
def raidEntry (entry : RaidEntry) : VolumeEntry where
  disk := "raid:".toList ++ [':'].intercalate entry.devIdents ++ " (volume):".toList
  partitions := [⟨0, entry.logicalVol.fstype.getD [], entry.logicalVol.label.getD [], entry.logicalVol.size,
    .raid entry.devIdents⟩]

/-- The entry of a volume group. -/
def vgEntry (vgName : List Char) (entry : VgEntry) : Option VolumeEntry :=
  (lvRows 0 entry.lvs).map fun rows => ⟨vgHeadline vgName, some (entry.size, vgName, entry.devIdents), rows⟩

/-- `VolumeMap::build_entries`, or a panic; the last loop, which shows the file systems in encrypted partitions, is left out. -/
def VolumeMap.buildEntries (volMap : VolumeMap) : Option (List VolumeEntry) := do
  let groups ← volMap.volGroups.mapM fun (vgName, entry) => vgEntry vgName entry
  pure (volMap.raidVolumes.map (fun (_, entry) => raidEntry entry) ++ groups.filter fun entry => entry.partitions ≠ [])

/-! ## What is asked of the list -/

/-- The names of the group and the volume, for a device with such a name. -/
def LsBlkDevice.lvIdent (dev : LsBlkDevice) : LvIdent := (LvIdent.fromStr dev.name).toOption.getD ⟨[], []⟩

/-- A device with the name of a logical volume of the group. -/
def LsBlkDevice.InGroup (vgName : List Char) (dev : LsBlkDevice) : Prop :=
  (LvIdent.fromStr dev.name).map LvIdent.vgName = .ok vgName

/-- A logical volume of the group that is no container itself. -/
def LsBlkDevice.ListedIn (vgName : List Char) (dev : LsBlkDevice) : Prop := dev.kind = .simple ∧ dev.InGroup vgName

instance (vgName : List Char) : DecidablePred (LsBlkDevice.InGroup vgName) := fun dev =>
  inferInstanceAs (Decidable ((LvIdent.fromStr dev.name).map LvIdent.vgName = .ok vgName))

instance (vgName : List Char) : DecidablePred (LsBlkDevice.ListedIn vgName) := fun dev =>
  inferInstanceAs (Decidable (dev.kind = .simple ∧ dev.InGroup vgName))

mutual

/-- The devices of several trees. -/
def devicesOf : List LsBlkDevice → List LsBlkDevice
  | [] => []
  | dev :: rest => dev.devices ++ devicesOf rest

/-- A device and everything below it. -/
def LsBlkDevice.devices : LsBlkDevice → List LsBlkDevice
  | ⟨name, size, fstype, pttype, label, uuid, children⟩ => ⟨name, size, fstype, pttype, label, uuid, children⟩ :: devicesOf children

end

/-- The physical volumes of LVM, each with the identifier of the device that it is found on. A volume on several devices is found
on each of them. -/
def LsBlk.physicalVolumes (lsblk : LsBlk) (pvDevIdents : List (List Char)) : List (List Char × LsBlkDevice) :=
  (lsblk.blockdevices.zip pvDevIdents).flatMap fun (blkdev, devIdent) =>
    (blkdev.devices.filter (·.kind = .lvm)).map fun pv => (devIdent, pv)

/-- The children of the physical volumes. -/
def LsBlk.logicalVolumes (lsblk : LsBlk) (pvDevIdents : List (List Char)) : List LsBlkDevice :=
  (lsblk.physicalVolumes pvDevIdents).flatMap fun (_, pv) => pv.children

/-- The names that are given to logical volumes: valid ones, and none twice on one physical volume. -/
def LsBlk.LvmNames (lsblk : LsBlk) (pvDevIdents : List (List Char)) : Prop :=
  ∀ p ∈ lsblk.physicalVolumes pvDevIdents, (p.2.children.map LsBlkDevice.name).Nodup ∧
    ∀ child ∈ p.2.children, ∃ vgName lvName, ValidNames vgName lvName ∧ child.name = dmName vgName lvName

/-- `lsblk` prints a device under each of its parents, with the same columns. -/
def LsBlk.SameColumns (lsblk : LsBlk) (pvDevIdents : List (List Char)) : Prop :=
  ∀ a ∈ lsblk.logicalVolumes pvDevIdents, ∀ b ∈ lsblk.logicalVolumes pvDevIdents, a.name = b.name →
    a.fstype = b.fstype ∧ a.uuid = b.uuid

/-- The identifiers of the physical volumes that a logical volume lies on. -/
def LsBlk.volumesBelow (lsblk : LsBlk) (pvDevIdents : List (List Char)) (child : LsBlkDevice) : List (List Char) :=
  ((lsblk.physicalVolumes pvDevIdents).filter fun p => p.2.children.any (·.name = child.name)).map Prod.fst

/-- The identifiers in the rows of a group that are those of a volume. -/
def identsOf (entries : List VolumeEntry) (lvIdent : LvIdent) : List VolumeIdent :=
  ((entries.filter (·.disk = vgHeadline lvIdent.vgName)).flatMap fun entry => entry.partitions.map VolumeRow.ident).filter
    fun ident => match ident with
      | .lv _ lvIdent' => lvIdent' = lvIdent
      | .raid _ => false

/-- A logical volume is in one row of its group, with the physical volumes that it lies on. -/
def LsBlk.VolumeListed (lsblk : LsBlk) (pvDevIdents : List (List Char)) (entries : List VolumeEntry) (child : LsBlkDevice) :
    Prop :=
  ∃ lvIdent devs, LvIdent.fromStr child.name = .ok lvIdent ∧ identsOf entries lvIdent = [.lv devs lvIdent] ∧
    devs.Perm (lsblk.volumesBelow pvDevIdents child)

/-- Every logical volume that is no container itself is listed. -/
def LsBlk.VolumesListed (parseLvSize : List Char → UInt64) (lsblk : LsBlk) (pvDevIdents : List (List Char)) : Prop :=
  ∃ entries, (VolumeMap.fromLsblk parseLvSize lsblk pvDevIdents).buildEntries = some entries ∧
    ∀ child ∈ lsblk.logicalVolumes pvDevIdents, child.kind = .simple → lsblk.VolumeListed pvDevIdents entries child

/-- Two listed volumes of a group whose file systems have the same UUID, or have none, are the same volume. -/
def LsBlk.UuidsDistinct (lsblk : LsBlk) (pvDevIdents : List (List Char)) : Prop :=
  ∀ vgName, ∀ a ∈ lsblk.logicalVolumes pvDevIdents, ∀ b ∈ lsblk.logicalVolumes pvDevIdents,
    a.ListedIn vgName → b.ListedIn vgName → a.uuid = b.uuid → a.name = b.name

/-- The total size of physical volumes. -/
def totalSize (parseLvSize : List Char → UInt64) (pvs : List LsBlkDevice) : Nat :=
  (pvs.map fun pv => (parseLvSize pv.size).toNat).sum

/-- The distinct physical volumes of a group: those with a volume of the group. -/
def LsBlk.groupVolumes (lsblk : LsBlk) (pvDevIdents : List (List Char)) (vgName : List Char) : List LsBlkDevice :=
  IndexMap.firsts LsBlkDevice.name
    (((lsblk.physicalVolumes pvDevIdents).map Prod.snd).filter fun pv => pv.children.any (·.InGroup vgName))

/-- The physical volumes with a listed volume of a group, with the identifiers of their devices. -/
def LsBlk.carriers (lsblk : LsBlk) (pvDevIdents : List (List Char)) (vgName : List Char) : List (List Char × LsBlkDevice) :=
  (lsblk.physicalVolumes pvDevIdents).filter fun p => p.2.children.any (·.ListedIn vgName)

/-- The physical volumes whose first child is a listed volume of a group. -/
def LsBlk.leaders (lsblk : LsBlk) (pvDevIdents : List (List Char)) (vgName : List Char) : List (List Char × LsBlkDevice) :=
  (lsblk.physicalVolumes pvDevIdents).filter fun p => p.2.children.head?.any (·.ListedIn vgName)

/-- The physical stores of a group are the devices that carry its listed volumes, each once, and its size is that of its distinct
physical volumes. -/
structure LsBlk.StoresExact (parseLvSize : List Char → UInt64) (lsblk : LsBlk) (pvDevIdents : List (List Char))
    (vgName : List Char) (entry : VgEntry) : Prop where
  nodup : entry.devIdents.Nodup
  mem_iff : ∀ devIdent, devIdent ∈ entry.devIdents ↔ devIdent ∈ (lsblk.carriers pvDevIdents vgName).map Prod.fst
  size : entry.size.toNat = totalSize parseLvSize (lsblk.groupVolumes pvDevIdents vgName)

/-- The physical volumes whose first child is a listed volume of the group are on different devices and on every device that
carries such a volume, and have together the size of the distinct physical volumes of the group. -/
structure LsBlk.LeadersExact (parseLvSize : List Char → UInt64) (lsblk : LsBlk) (pvDevIdents : List (List Char))
    (vgName : List Char) : Prop where
  nodup : ((lsblk.leaders pvDevIdents vgName).map Prod.fst).Nodup
  covers : ∀ devIdent ∈ (lsblk.carriers pvDevIdents vgName).map Prod.fst,
    devIdent ∈ (lsblk.leaders pvDevIdents vgName).map Prod.fst
  size : totalSize parseLvSize ((lsblk.leaders pvDevIdents vgName).map Prod.snd) % 2 ^ 64 =
    totalSize parseLvSize (lsblk.groupVolumes pvDevIdents vgName)

end Anylinuxfs
