import Anylinuxfs.DiskImage
import Anylinuxfs.Lemmas.Text

/-!
# Where the numbers agree

A raw image is numbered by the places of its used slots in the enumeration, an image in the format qcow2 by the slots, which is
what the virtual machine does. The two agree where every partition that is shown is in the slot of its place.
-/

namespace Anylinuxfs

open Interact (Prog)

namespace DiskImage

variable {env : ∀ c, SysCall.Answer c} {readOnly : Bool} {fsTypes : List (List Char)} {table : PartitionTable}
  {blkdev : LsBlkDevice} {path imageName : List Char} {p : Partition} {n number : Nat}

/-! ## Numbers and texts -/

/-- A number is read back as it was written. -/
theorem usizeFromStr_toDigits (hn : n < 2 ^ 64) : usizeFromStr (Nat.toDigits 10 n) = some n := by
  have hhead : (Nat.toDigits 10 n).head? ≠ some '+' := fun h =>
    notMem_toDigits_of_not_isDigit (by decide) (List.mem_of_mem_head? h)
  simp only [usizeFromStr, hhead, if_false]
  rw [if_pos ⟨Nat.toDigits_ne_nil, isDigit_toDigits⟩]
  exact parseUsize_toDigits hn

theorem partitionIdent_eq : partitionIdent path n = path ++ '@' :: 's' :: Nat.toDigits 10 n := by
  simp [partitionIdent]

theorem rfind_partitionIdent : rfind "@s".toList (partitionIdent path n) = some path.length := by
  rw [partitionIdent_eq]
  refine rfind_eq (by simp) (by simp) ?_
  intro j hj
  obtain ⟨k, rfl⟩ : ∃ k, j = path.length + (k + 1) := ⟨j - path.length - 1, by omega⟩
  rw [List.drop_append, Bool.eq_false_iff]
  intro hfound
  have hmem : '@' ∈ 's' :: Nat.toDigits 10 n := by
    have hsub := (List.isPrefixOf_iff_prefix.1 hfound).subset (List.mem_cons_self (a := '@'))
    rw [List.drop_of_length_le (by omega), List.nil_append, Nat.add_sub_cancel_left, List.drop_succ_cons] at hsub
    exact List.mem_of_mem_drop hsub
  rcases List.mem_cons.1 hmem with heq | hmem
  · cases heq
  · exact notMem_toDigits_of_not_isDigit (by decide) hmem

/-- What is written for a partition is read as the image and the number. -/
theorem parseImagePartitionIdent_partitionIdent (hpath : path ≠ []) (hn : n < 2 ^ 64) :
    parseImagePartitionIdent (partitionIdent path n) = some (path, n) := by
  rw [parseImagePartitionIdent, rfind_partitionIdent]
  have htake : (partitionIdent path n).take path.length = path := by simp [partitionIdent_eq]
  have hdrop : (partitionIdent path n).drop (path.length + 2) = Nat.toDigits 10 n := by
    simp [partitionIdent_eq, List.drop_append]
  simp only [htake, hdrop, hpath, if_false]
  rw [if_pos ⟨Nat.toDigits_ne_nil, isDigit_toDigits⟩, parseUsize_toDigits hn]
  rfl

/-! ## What the list shows -/

/-- The rows are those that are shown for the places of the partitions. -/
theorem mem_renderPlainBlockTree {block : PlainBlockDevice} (hscheme : block.ptType.isSome) {row : Row} :
    row ∈ renderPlainBlockTree fsTypes block ↔ ∃ i, rowAt fsTypes block i = some row := by
  obtain ⟨scheme, hscheme⟩ := Option.isSome_iff_exists.1 hscheme
  simp only [renderPlainBlockTree, rowAt, hscheme, Option.bind_some, List.mem_filterMap]
  constructor
  · rintro ⟨partition, hmem, hrow⟩
    obtain ⟨i, hi⟩ := List.mem_iff_getElem?.1 hmem
    exact ⟨i, Option.bind_eq_some_iff.2 ⟨partition, hi, hrow⟩⟩
  · rintro ⟨i, hrow⟩
    obtain ⟨partition, hi, hrow⟩ := Option.bind_eq_some_iff.1 hrow
    exact ⟨partition, List.mem_of_getElem? hi, hrow⟩

theorem partitionRow_eq_some {ident : List Char} {partition : PlainPartition} {row : Row} :
    partitionRow fsTypes ident partition = some row ↔
      partition.fsType ∈ fsTypes ∧ row = ⟨partition.number, partition.fsType, partitionIdent ident partition.number⟩ := by
  rw [partitionRow]
  split <;> simp_all [eq_comm]

/-- The number of a partition that `lsblk` names by its slot is the slot. -/
theorem partitionNumber_lsblk (hslot : p.slot < 2 ^ 64) : partitionNumber blkdev (p.lsblk blkdev.name) = some p.slot := by
  have hstrip : stripPrefix blkdev.name (p.lsblk blkdev.name).name = some (Nat.toDigits 10 p.slot) := by
    simp [stripPrefix, Partition.lsblk, Partition.name]
  have hdigits : stripPrefix ['p'] (Nat.toDigits 10 p.slot) = none := by
    rw [stripPrefix, if_neg]
    intro hp
    have hmem : 'p' ∈ Nat.toDigits 10 p.slot := (List.isPrefixOf_iff_prefix.1 hp).subset List.mem_cons_self
    exact notMem_toDigits_of_not_isDigit (by decide) hmem
  simp [partitionNumber, hstrip, hdigits, usizeFromStr_toDigits hslot]

/-! ## What a mount uses -/

/-- What `probe_image` makes of a partition of a raw image. -/
def partitionDevice (path : Bytes) (i : Nat) (probe : Probe) : DevInfo where
  path
  rpath := path
  isImage := true
  blockSize := probe.blockSize
  label := probe.label
  fsType := probe.fsType
  vmPath := "/dev/vda".toList ++ Nat.toDigits 10 (i + 1)
  vmPartIdx := some (i + 1)
  diskFormat := .raw
  metadataProbed := true

/-- The devices of a raw image: the image, then the partitions by their places. -/
theorem result_probeImage (h : IsRaw env readOnly path table) : ∃ whole, (DevInfo.probeImage (utf8 path)).result env =
    .ok (whole :: (table.partitions.map Partition.probe).mapIdx (partitionDevice (utf8 path))) := by
  obtain ⟨whole, hwhole⟩ := h.probed
  have hpath : utf8 path ≠ [] := fun hnil => h.named (utf8_eq_nil hnil)
  simp [DevInfo.probeImage, Prog.result_bind, hpath, sys, Prog.perform, hwhole, h.enumerated, h.format]
  rfl

theorem result_openDisk (h : Opens env readOnly path) {dev : DevInfo} (hdev : dev.rpath = utf8 path) (what : String) :
    ∃ disk, (openDisk dev readOnly what).result env = .ok disk := by
  obtain ⟨disk, hdisk⟩ := h.opened
  rw [← hdev] at hdisk
  simp [openDisk, sys, Prog.perform, Prog.result_bind, hdisk]

/-- A number in the range of the places is taken for the slot. -/
theorem mountedDevice_raw (h : IsRaw env readOnly path table) {i : Nat} (hi : table.partitions[i]? = some p)
    (hn : i + 1 < 2 ^ 64) :
    mountedDevice env readOnly (partitionIdent path (i + 1)) = some ("/dev/vda".toList ++ Nat.toDigits 10 (i + 1)) := by
  obtain ⟨whole, hprobe⟩ := result_probeImage h
  obtain ⟨dev, hdev, hrpath, hvm⟩ :
      ∃ dev, ((table.partitions.map Partition.probe).mapIdx (partitionDevice (utf8 path)))[i]? = some dev ∧
        dev.rpath = utf8 path ∧ dev.vmPath = "/dev/vda".toList ++ Nat.toDigits 10 (i + 1) :=
    ⟨partitionDevice (utf8 path) i p.probe, by simp [hi], rfl, rfl⟩
  obtain ⟨disk, hdisk⟩ := result_openDisk h.toOpens hrpath "image file"
  rw [mountedDevice, resolveDiskToken, parseImagePartitionIdent_partitionIdent h.named hn]
  generalize (table.partitions.map Partition.probe).mapIdx (partitionDevice (utf8 path)) = devs at hprobe hdev
  simp [Prog.result_bind, sys, Prog.perform, h.found, h.format, hprobe, hdev, hvm, hdisk, Except.toOption]

/-- Every number is taken for the slot. -/
theorem mountedDevice_qcow2 (h : IsQcow2 env readOnly path blkdev table) (hpos : 0 < n) (hn : n < 2 ^ 64) :
    mountedDevice env readOnly (partitionIdent path n) = some ("/dev/vda".toList ++ Nat.toDigits 10 n) := by
  have hpath : utf8 path ≠ [] := fun hnil => h.named (utf8_eq_nil hnil)
  obtain ⟨dev, hprobe, hrpath, hvm⟩ : ∃ dev, (DevInfo.unprobedImage (utf8 path) (some n)).result env = .ok dev ∧
      dev.rpath = utf8 path ∧ dev.vmPath = "/dev/vda".toList ++ Nat.toDigits 10 n := by
    simp [DevInfo.unprobedImage, hpath, Nat.ne_of_gt hpos]
  obtain ⟨disk, hdisk⟩ := result_openDisk h.toOpens hrpath "image file"
  rw [mountedDevice, resolveDiskToken, parseImagePartitionIdent_partitionIdent h.named hn]
  simp [Prog.result_bind, sys, Prog.perform, h.found, h.format, hprobe, hvm, hdisk, Except.toOption]

/-! ## Agreement -/

/-- A raw image shows a partition with its place. -/
theorem rawShows_iff (h : IsRaw env readOnly path table) : RawShows env fsTypes path imageName table p number ↔
    ∃ i, table.partitions[i]? = some p ∧ p.probe.fsType.getD [] ∈ fsTypes ∧ number = i + 1 := by
  obtain ⟨whole, hprobe⟩ := result_probeImage h
  have hrow : ∀ {i row}, table.partitions[i]? = some p →
      (rowAt fsTypes (rawImagePlainBlock path imageName (some table.scheme)
          (whole :: (table.partitions.map Partition.probe).mapIdx (partitionDevice (utf8 path)))) i = some row ↔
        p.probe.fsType.getD [] ∈ fsTypes ∧
          row = ⟨i + 1, p.probe.fsType.getD [], partitionIdent imageName (i + 1)⟩) := by
    intro i row hi
    simp [rowAt, rawImagePlainBlock, hi, partitionRow_eq_some, partitionDevice]
  constructor
  · rintro ⟨probeDevs, i, row, hdevs, hi, hshown, rfl⟩
    obtain rfl := Except.ok.inj (hprobe.symm.trans hdevs)
    obtain ⟨hmem, rfl⟩ := (hrow hi).1 hshown
    exact ⟨i, hi, hmem, rfl⟩
  · rintro ⟨i, hi, hmem, rfl⟩
    exact ⟨_, i, _, hprobe, hi, (hrow hi).2 ⟨hmem, rfl⟩, rfl⟩

/-- An image in the format qcow2 shows a partition with its slot. -/
theorem qcow2Shows_iff (h : IsQcow2 env readOnly path blkdev table) (hp : p ∈ table.partitions) :
    Qcow2Shows fsTypes path imageName blkdev p number ↔ p.probe.fsType.getD [] ∈ fsTypes ∧ number = p.slot := by
  have hrow : ∀ {i row}, blkdev.children[i]? = some (p.lsblk blkdev.name) →
      (rowAt fsTypes (qcow2ImagePlainBlock path imageName blkdev) i = some row ↔
        p.probe.fsType.getD [] ∈ fsTypes ∧ row = ⟨p.slot, p.probe.fsType.getD [], partitionIdent imageName p.slot⟩) := by
    intro i row hi
    have hnumber : partitionNumber blkdev (p.lsblk blkdev.name) = some p.slot := partitionNumber_lsblk (table.numbered p hp).2
    have htype : (p.lsblk blkdev.name).fstype = p.probe.fsType := rfl
    simp [rowAt, qcow2ImagePlainBlock, h.scheme, hi, partitionRow_eq_some, hnumber, htype]
  constructor
  · rintro ⟨i, row, hi, hshown, rfl⟩
    obtain ⟨hmem, rfl⟩ := (hrow hi).1 hshown
    exact ⟨hmem, rfl⟩
  · rintro ⟨hmem, rfl⟩
    obtain ⟨order, hperm, hchildren⟩ := h.named_by_slot
    obtain ⟨i, hi⟩ := List.mem_iff_getElem?.1 (hperm.mem_iff.2 hp)
    have hchild : blkdev.children[i]? = some (p.lsblk blkdev.name) := by simp [hchildren, hi]
    exact ⟨i, _, hchild, (hrow hchild).2 ⟨hmem, rfl⟩, rfl⟩

/-- The numbers agree exactly when every partition that is shown is in the slot of its place. -/
theorem partitionsAgree_iff {raw rawName qcow2 qcow2Name : List Char} (hraw : IsRaw env readOnly raw table)
    (hqcow2 : IsQcow2 env readOnly qcow2 blkdev table) :
    PartitionsAgree env readOnly fsTypes raw rawName qcow2 qcow2Name blkdev table ↔
      ∀ i p, table.partitions[i]? = some p → p.probe.fsType.getD [] ∈ fsTypes → p.slot = i + 1 := by
  constructor
  · intro hagree i p hi hshown
    have hp : p ∈ table.partitions := List.mem_of_getElem? hi
    have hnumber := (hagree.same_number p hp (i + 1)).1 ((rawShows_iff hraw).2 ⟨i, hi, hshown, rfl⟩)
    exact ((qcow2Shows_iff hqcow2 hp).1 hnumber).2.symm
  · intro hplaces
    constructor
    · intro p hp number hshows
      obtain ⟨i, hi, hshown, rfl⟩ := (rawShows_iff hraw).1 hshows
      have hslot := hplaces i p hi hshown
      rw [mountedDevice_raw hraw hi (hslot ▸ (table.numbered p hp).2), Partition.device, Partition.name, hslot]
    · intro p hp number hshows
      obtain ⟨-, rfl⟩ := (qcow2Shows_iff hqcow2 hp).1 hshows
      exact mountedDevice_qcow2 hqcow2 (table.numbered p hp).1 (table.numbered p hp).2
    · intro p hp number
      rw [rawShows_iff hraw, qcow2Shows_iff hqcow2 hp]
      constructor
      · rintro ⟨i, hi, hshown, rfl⟩
        exact ⟨hshown, (hplaces i p hi hshown).symm⟩
      · rintro ⟨hshown, rfl⟩
        obtain ⟨i, hi⟩ := List.mem_iff_getElem?.1 hp
        exact ⟨i, hi, hshown, hplaces i p hi hshown⟩

/-! ## Two images -/

/-- A host where every file can be opened and every image has the same table. -/
def hostOf (table : PartitionTable) : ∀ c, SysCall.Answer c
  | .mountTable => .ok []
  | .exists _ | .isFile _ | .mediaWritable _ | .krunAddDisk _ _ _ => true
  | .unmountFs _ | .stage _ => .ok ()
  | .blkidProbe _ => some ⟨none, none, none⟩
  | .blkidPartitions _ => some (table.partitions.map Partition.probe)
  | .openLocked _ _ => .granted ⟨0, 0⟩
  | .close _ | .dropCtx => ()
  | .fork => .failed

/-- What `lsblk` says of the first disk with a table. -/
def vda (table : PartitionTable) : LsBlkDevice :=
  { name := "vda".toList, pttype := some table.scheme, children := table.partitions.map fun p => p.lsblk "vda".toList }

theorem isRaw_hostOf (table : PartitionTable) : IsRaw (hostOf table) false "disk.img".toList table where
  named := by decide
  found := rfl
  opened := ⟨_, rfl⟩
  format := by decide
  probed := ⟨_, rfl⟩
  enumerated := rfl

theorem isQcow2_hostOf (table : PartitionTable) : IsQcow2 (hostOf table) false "disk.qcow2".toList (vda table) table where
  named := by decide
  found := rfl
  opened := ⟨_, rfl⟩
  format := by decide
  scheme := rfl
  named_by_slot := ⟨table.partitions, .refl _, rfl⟩

/-- Two partitions of the type ext4 in the slots 1 and 2, with labels. -/
def denseTable : PartitionTable where
  scheme := "gpt".toList
  partitions := [⟨1, none, some "A".toList, some "ext4".toList⟩, ⟨2, none, some "B".toList, some "ext4".toList⟩]
  distinct := by decide
  numbered := by decide

theorem partitionsAgree_denseTable : PartitionsAgree (hostOf denseTable) false ["ext4".toList] "disk.img".toList
    "disk.img".toList "disk.qcow2".toList "disk.qcow2".toList (vda denseTable) denseTable := by
  refine (partitionsAgree_iff (isRaw_hostOf _) (isQcow2_hostOf _)).2 ?_
  intro i p hi _
  match i with
  | 0 => cases hi; rfl
  | 1 => cases hi; rfl
  | _ + 2 => cases hi

/-- The second partition is in the third slot. -/
def sparseTable : PartitionTable where
  scheme := "gpt".toList
  partitions := [⟨1, none, some "A".toList, some "ext4".toList⟩, ⟨3, none, some "B".toList, some "ext4".toList⟩]
  distinct := by decide
  numbered := by decide

/-- The list shows it as the second one of the raw image, and `/dev/vda2` is mounted. -/
theorem partitionsAgree_false : ¬ ∀ (env : ∀ c, SysCall.Answer c) (readOnly : Bool) (fsTypes : List (List Char))
    (raw rawName qcow2 qcow2Name : List Char) (blkdev : LsBlkDevice) (table : PartitionTable), IsRaw env readOnly raw table →
      IsQcow2 env readOnly qcow2 blkdev table →
        PartitionsAgree env readOnly fsTypes raw rawName qcow2 qcow2Name blkdev table := by
  intro hall
  have hagree := hall _ _ ["ext4".toList] _ "disk.img".toList _ "disk.qcow2".toList _ _ (isRaw_hostOf sparseTable)
    (isQcow2_hostOf sparseTable)
  have hplace : sparseTable.partitions[1]? = some ⟨3, none, some "B".toList, some "ext4".toList⟩ := rfl
  have hshows : RawShows (hostOf sparseTable) ["ext4".toList] "disk.img".toList "disk.img".toList sparseTable _ 2 :=
    (rawShows_iff (isRaw_hostOf sparseTable)).2 ⟨1, hplace, List.mem_singleton.2 rfl, rfl⟩
  have hmounts := hagree.raw_mounts _ (List.mem_of_getElem? hplace) _ hshows
  rw [mountedDevice_raw (isRaw_hostOf sparseTable) hplace (by decide)] at hmounts
  exact absurd hmounts (by decide)

end DiskImage

end Anylinuxfs
