import Anylinuxfs.Lemmas.VolumeMap

/-!
# Groups and volumes in the list

The map is made on one walk. A device is noted for a group only at the first child of a physical volume, and volumes are told
apart by the UUIDs of their file systems: both conditions are exact (`storesExact_iff`, `volumesListed_iff`).
-/

namespace Anylinuxfs

variable {parseLvSize : List Char → UInt64}

/-! ## Physical stores -/

theorem mem_volGroups_iff {lsblk : LsBlk} {pvDevIdents : List (List Char)} {p : List Char × VgEntry} :
    p ∈ (VolumeMap.fromLsblk parseLvSize lsblk pvDevIdents).volGroups ↔ lsblk.carriers pvDevIdents p.1 ≠ [] ∧
      p.2 = groupEntry parseLvSize ((lsblk.listed pvDevIdents).filter (·.vgName = p.1)) := by
  have hfirst : ∀ vgName, vgName ∈ IndexMap.firsts id ((lsblk.listed pvDevIdents).map Visit.vgName) ↔
      lsblk.carriers pvDevIdents vgName ≠ [] := by
    intro vgName
    rw [← mem_groups_iff]
    refine ⟨IndexMap.mem_of_mem_firsts, fun h => ?_⟩
    obtain ⟨vgName', hmem, heq⟩ : ∃ vgName' ∈ IndexMap.firsts id ((lsblk.listed pvDevIdents).map Visit.vgName),
      id vgName' = id vgName := IndexMap.exists_mem_firsts h
    rwa [← show vgName' = vgName from heq]
  obtain ⟨vgName, entry⟩ := p
  rw [volGroups_fromLsblk, List.mem_map]
  constructor
  · rintro ⟨vgName', hmem, heq⟩
    obtain ⟨rfl, rfl⟩ := Prod.mk.inj heq
    exact ⟨(hfirst vgName').1 hmem, rfl⟩
  · rintro ⟨hne, heq⟩
    exact ⟨vgName, (hfirst vgName).2 hne, congrArg (Prod.mk vgName) heq.symm⟩

/-- The leaders are among the physical volumes that carry a listed volume. -/
theorem leaders_subset (lsblk : LsBlk) (pvDevIdents : List (List Char)) (vgName : List Char) :
    lsblk.leaders pvDevIdents vgName ⊆ lsblk.carriers pvDevIdents vgName := by
  intro p hp
  obtain ⟨hpv, hfirst⟩ := List.mem_filter.1 hp
  refine List.mem_filter.2 ⟨hpv, ?_⟩
  rw [Option.any_eq_true] at hfirst
  obtain ⟨child, hchild, hlisted⟩ := hfirst
  exact List.any_eq_true.2 ⟨child, List.mem_of_mem_head? hchild, hlisted⟩

/-- The entry of a group is exact when the leaders are. -/
theorem storesExact_groupEntry {lsblk : LsBlk} {pvDevIdents : List (List Char)} {vgName : List Char} :
    lsblk.StoresExact parseLvSize pvDevIdents vgName
        (groupEntry parseLvSize ((lsblk.listed pvDevIdents).filter (·.vgName = vgName))) ↔
      lsblk.LeadersExact parseLvSize pvDevIdents vgName := by
  have hperm := firstChildren_perm lsblk pvDevIdents vgName
  obtain ⟨first, hfirst⟩ : ∃ first, ((lsblk.listed pvDevIdents).filter (·.vgName = vgName)).filter (·.j = 0) = first := ⟨_, rfl⟩
  rw [hfirst] at hperm
  have hidents : (first.map Visit.devIdent).Perm ((lsblk.leaders pvDevIdents vgName).map Prod.fst) := by
    have := hperm.map Prod.fst
    rwa [List.map_map] at this
  have hsize : totalSize parseLvSize (first.map Visit.blkdev) =
      totalSize parseLvSize ((lsblk.leaders pvDevIdents vgName).map Prod.snd) := by
    have := hperm.map Prod.snd
    rw [List.map_map] at this
    exact (this.map _).sum_nat
  constructor
  · rintro ⟨hnodup, hmem, hsum⟩
    rw [devIdents_groupEntry, hfirst] at hnodup hmem
    rw [size_groupEntry, hfirst, hsize] at hsum
    exact ⟨hidents.nodup_iff.1 hnodup, fun devIdent h => hidents.mem_iff.1 ((hmem devIdent).2 h), hsum⟩
  · rintro ⟨hnodup, hcovers, hsum⟩
    refine ⟨?_, fun devIdent => ?_, ?_⟩
    · rw [devIdents_groupEntry, hfirst]
      exact hidents.nodup_iff.2 hnodup
    · rw [devIdents_groupEntry, hfirst, hidents.mem_iff]
      exact ⟨fun h => List.map_subset _ (leaders_subset lsblk pvDevIdents vgName) h, hcovers devIdent⟩
    · rw [size_groupEntry, hfirst, hsize, hsum]

/-- The stores and the size of every group are right exactly when, in every group, the physical volumes whose first child is a
listed volume are on different devices, on all devices with a listed volume, and have the size of the whole group. -/
theorem storesExact_iff (lsblk : LsBlk) (pvDevIdents : List (List Char)) :
    (∀ p ∈ (VolumeMap.fromLsblk parseLvSize lsblk pvDevIdents).volGroups,
        lsblk.StoresExact parseLvSize pvDevIdents p.1 p.2) ↔
      ∀ vgName, lsblk.carriers pvDevIdents vgName ≠ [] → lsblk.LeadersExact parseLvSize pvDevIdents vgName := by
  constructor
  · intro h vgName hne
    exact storesExact_groupEntry.1 (h (vgName, _) (mem_volGroups_iff.2 ⟨hne, rfl⟩))
  · rintro h ⟨vgName, entry⟩ hp
    obtain ⟨hne, heq⟩ := mem_volGroups_iff.1 hp
    rw [heq]
    exact storesExact_groupEntry.2 (h vgName hne)

/-- A physical volume on `disk4s1`: an encrypted volume, and one that is listed. -/
def encryptedFirst : LsBlk :=
  ⟨[{ name := "vda".toList, size := "1G".toList, fstype := some "LVM2_member".toList,
      children := [{ name := "vg-a".toList, fstype := some "crypto_LUKS".toList }, { name := "vg-b".toList }] }]⟩

/-- The group of a volume that comes after an encrypted one has no physical store. -/
theorem storesExact_false :
    ¬∀ (parseLvSize : List Char → UInt64) (lsblk : LsBlk) (pvDevIdents : List (List Char)),
      ∀ p ∈ (VolumeMap.fromLsblk parseLvSize lsblk pvDevIdents).volGroups,
        lsblk.StoresExact parseLvSize pvDevIdents p.1 p.2 := by
  intro h
  have hgroup := storesExact_groupEntry.1 (h (fun _ => 0) encryptedFirst ["disk4s1".toList] ("vg".toList, _)
    (mem_volGroups_iff.2 ⟨by decide, rfl⟩))
  exact absurd (hgroup.covers "disk4s1".toList (by decide)) (by decide)

/-! ## Logical volumes -/

section Volumes

variable {lsblk : LsBlk} {pvDevIdents : List (List Char)}

theorem mem_logicalVolumes_iff {child : LsBlkDevice} :
    child ∈ lsblk.logicalVolumes pvDevIdents ↔ ∃ p ∈ lsblk.physicalVolumes pvDevIdents, child ∈ p.2.children :=
  List.mem_flatMap

/-- What is listed for a group are the volumes that are listed in it. -/
theorem mem_listed_iff {vgName : List Char} {child : LsBlkDevice} :
    child ∈ ((lsblk.listed pvDevIdents).filter (·.vgName = vgName)).map Visit.child ↔
      child ∈ lsblk.logicalVolumes pvDevIdents ∧ child.ListedIn vgName := by
  rw [((listed_perm lsblk pvDevIdents vgName).map Visit.child).mem_iff, mem_logicalVolumes_iff]
  simp only [List.mem_map, List.mem_flatMap, List.mem_filter, decide_eq_true_eq]
  constructor
  · rintro ⟨v, ⟨p, hp, hv, hlisted⟩, rfl⟩
    exact ⟨⟨p, hp, (mem_ownVisits hv).2.2⟩, hlisted⟩
  · rintro ⟨⟨p, hp, hchild⟩, hlisted⟩
    obtain ⟨j, hj, rfl⟩ := List.getElem_of_mem hchild
    exact ⟨⟨p.1, p.2, j, p.2.children[j]⟩, ⟨p, hp, List.mem_mapIdx.2 ⟨j, hj, rfl⟩, hlisted⟩, rfl⟩

/-- A valid name is that of a volume, and volumes with the same names of group and volume have the same name. -/
theorem name_eq_of_lvIdent (hnames : lsblk.LvmNames pvDevIdents) {a b : LsBlkDevice}
    (ha : a ∈ lsblk.logicalVolumes pvDevIdents) (hb : b ∈ lsblk.logicalVolumes pvDevIdents) :
    a.IsLv ∧ (a.lvIdent = b.lvIdent → a.name = b.name) := by
  have hvalid : ∀ dev ∈ lsblk.logicalVolumes pvDevIdents, ∃ vgName lvName, LvIdent.fromStr dev.name = .ok ⟨vgName, lvName⟩ ∧
      dev.name = dmName vgName lvName := by
    intro dev hdev
    obtain ⟨p, hp, hchild⟩ := mem_logicalVolumes_iff.1 hdev
    obtain ⟨vgName, lvName, hv, hname⟩ := (hnames p hp).2 dev hchild
    exact ⟨vgName, lvName, hname ▸ fromStr_dmName hv, hname⟩
  obtain ⟨vg₁, lv₁, ha_ok, ha_name⟩ := hvalid a ha
  obtain ⟨vg₂, lv₂, hb_ok, hb_name⟩ := hvalid b hb
  refine ⟨ha_ok.trans (congrArg Except.ok (lvIdent_of_ok ha_ok).symm), fun h => ?_⟩
  rw [lvIdent_of_ok ha_ok, lvIdent_of_ok hb_ok] at h
  obtain ⟨rfl, rfl⟩ := LvIdent.mk.inj h
  rw [ha_name, hb_name]

/-- A physical volume is noted once for a volume that is one of its children. -/
theorem ownVisits_filter (p : List Char × LsBlkDevice) (name : List Char) (hnodup : (p.2.children.map LsBlkDevice.name).Nodup) :
    ((p.2.ownVisits p.1).filter (·.child.name = name)).map Visit.devIdent =
      if p.2.children.any (·.name = name) then [p.1] else [] := by
  have hidx : ∀ (children : List LsBlkDevice) (visit : Nat → LsBlkDevice → Visit),
      (∀ j child, (visit j child).child = child ∧ (visit j child).devIdent = p.1) →
      ((children.mapIdx visit).filter (·.child.name = name)).map Visit.devIdent =
        (children.filter (·.name = name)).map fun _ => p.1 := by
    intro children
    induction children with
    | nil => exact fun _ _ => rfl
    | cons child rest ih =>
      intro visit hvisit
      rw [List.mapIdx_cons, List.filter_cons, List.filter_cons, (hvisit 0 child).1]
      have hrest := ih (fun j => visit (j + 1)) fun j => hvisit (j + 1)
      by_cases h : child.name = name
      · simp [h, hrest, (hvisit 0 child).2]
      · simp [h, hrest]
  rw [LsBlkDevice.ownVisits, hidx _ _ fun j child => ⟨rfl, rfl⟩]
  generalize p.2.children = children at hnodup
  induction children with
  | nil => rfl
  | cons child rest ih =>
    rw [List.map_cons, List.nodup_cons] at hnodup
    rw [List.filter_cons, List.any_cons]
    by_cases h : child.name = name
    · have hrest : rest.filter (·.name = name) = [] := by
        refine List.filter_eq_nil_iff.2 fun dev hdev heq => hnodup.1 ?_
        exact List.mem_map.2 ⟨dev, hdev, (of_decide_eq_true heq).trans h.symm⟩
      simp [h, hrest]
    · simp [h, ih hnodup.2]

/-- The devices that are noted for the volumes of a name are the physical volumes that the volume lies on. -/
theorem devIdents_perm (hnames : lsblk.LvmNames pvDevIdents) (hsame : lsblk.SameColumns pvDevIdents) {vgName : List Char}
    {child : LsBlkDevice} (hchild : child ∈ lsblk.logicalVolumes pvDevIdents) (hlisted : child.ListedIn vgName) :
    ((((lsblk.listed pvDevIdents).filter (·.vgName = vgName)).filter (·.child.name = child.name)).map Visit.devIdent).Perm
      (lsblk.volumesBelow pvDevIdents child) := by
  refine (((listed_perm lsblk pvDevIdents vgName).filter _).map _).trans (.of_eq ?_)
  have hown : ∀ p ∈ lsblk.physicalVolumes pvDevIdents,
      ((((p.2.ownVisits p.1).filter (·.child.ListedIn vgName)).filter (·.child.name = child.name)).map Visit.devIdent) =
        if p.2.children.any (·.name = child.name) then [p.1] else [] := by
    intro p hp
    rw [← ownVisits_filter p child.name (hnames p hp).1, List.filter_filter]
    refine congrArg _ (List.filter_congr fun v hv => ?_)
    rw [← Bool.decide_and]
    refine decide_eq_decide.2 ⟨fun h => h.1, fun h => ⟨h, ?_⟩⟩
    have hcolumns := hsame v.child (mem_logicalVolumes_iff.2 ⟨p, hp, (mem_ownVisits hv).2.2⟩) child hchild h
    refine ⟨?_, ?_⟩
    · rw [LsBlkDevice.kind, hcolumns.1]
      exact hlisted.1
    · rw [LsBlkDevice.InGroup, h]
      exact hlisted.2
  rw [List.filter_flatMap, List.map_flatMap, List.flatMap_congr hown, ← flatMap_filter, LsBlk.volumesBelow]
  exact List.map_eq_flatMap.symm

/-- Every volume is listed exactly when the UUIDs tell the volumes of each group apart. -/
theorem volumesListed_iff (hnames : lsblk.LvmNames pvDevIdents) (hsame : lsblk.SameColumns pvDevIdents) :
    lsblk.VolumesListed parseLvSize pvDevIdents ↔ lsblk.UuidsDistinct pvDevIdents := by
  constructor
  · rintro ⟨entries, hentries, hall⟩ vgName a ha b hb halisted hblisted huuid
    -- the row of a volume is that of a volume of the same name that came first with its UUID
    have hkey : ∀ c ∈ lsblk.logicalVolumes pvDevIdents, c.ListedIn vgName → ∃ key ∈ IndexMap.firsts LsBlkDevice.uuid
        (((lsblk.listed pvDevIdents).filter (·.vgName = vgName)).map Visit.child), key.name = c.name ∧ key.uuid = c.uuid := by
      intro c hc hlisted
      obtain ⟨lvIdent, devs, hok, hrows, -⟩ := hall c hc hlisted.1
      have hident : c.lvIdent = lvIdent := lvIdent_of_ok hok
      obtain rfl : lvIdent.vgName = vgName := hident ▸ (isLv_of_inGroup hlisted.2).2
      rw [identsOf_fromLsblk hentries] at hrows
      obtain ⟨key, hkey, -⟩ := List.mem_map.1 (hrows ▸ List.mem_singleton_self _)
      obtain ⟨hfirst, hkeyIdent⟩ := List.mem_filter.1 hkey
      have hmem := (mem_listed_iff.1 (IndexMap.mem_of_mem_firsts hfirst)).1
      have hname := (name_eq_of_lvIdent hnames hmem hc).2 ((of_decide_eq_true hkeyIdent).trans hident.symm)
      exact ⟨key, hfirst, hname, (hsame key hmem c hc hname).2⟩
    obtain ⟨keyA, hkeyA, hnameA, huuidA⟩ := hkey a ha halisted
    obtain ⟨keyB, hkeyB, hnameB, huuidB⟩ := hkey b hb hblisted
    have hkeys : keyA = keyB := IndexMap.eq_of_mem_firsts hkeyA hkeyB (huuidA.trans (huuid.trans huuidB.symm))
    rw [← hnameA, ← hnameB, hkeys]
  · intro hdistinct
    refine ⟨_, buildEntries_fromLsblk lsblk pvDevIdents, fun c hc hsimple => ?_⟩
    have hok := (name_eq_of_lvIdent hnames hc hc).1
    have hlisted : c.ListedIn c.lvIdent.vgName := ⟨hsimple, inGroup_iff.2 ⟨_, hok, rfl⟩⟩
    -- among the listed volumes of its group, the UUID and the name of a volume say the same
    have hvolume : ∀ dev ∈ ((lsblk.listed pvDevIdents).filter (·.vgName = c.lvIdent.vgName)).map Visit.child,
        dev.uuid = c.uuid ↔ dev.name = c.name := by
      intro dev hdev
      obtain ⟨hmem, hdevListed⟩ := mem_listed_iff.1 hdev
      exact ⟨hdistinct _ dev hmem c hc hdevListed hlisted, fun h => (hsame dev hmem c hc h).2⟩
    obtain ⟨key, hfirst, hkeyUuid⟩ : ∃ key ∈ IndexMap.firsts LsBlkDevice.uuid
        (((lsblk.listed pvDevIdents).filter (·.vgName = c.lvIdent.vgName)).map Visit.child), key.uuid = c.uuid :=
      IndexMap.exists_mem_firsts (mem_listed_iff.2 ⟨hc, hlisted⟩)
    refine ⟨c.lvIdent, (((lsblk.listed pvDevIdents).filter (·.vgName = c.lvIdent.vgName)).filter
      (·.child.uuid = key.uuid)).map Visit.devIdent, hok, ?_, ?_⟩
    · rw [identsOf_fromLsblk (buildEntries_fromLsblk lsblk pvDevIdents), IndexMap.filter_firsts hfirst fun dev hdev => ?_]
      · rfl
      · have hmem := IndexMap.mem_of_mem_firsts hdev
        rw [decide_eq_true_iff, hkeyUuid, hvolume dev hmem]
        refine ⟨(name_eq_of_lvIdent hnames (mem_listed_iff.1 hmem).1 hc).2, fun h => ?_⟩
        rw [LsBlkDevice.lvIdent, h, LsBlkDevice.lvIdent]
    · have hfilter : ∀ v ∈ (lsblk.listed pvDevIdents).filter (·.vgName = c.lvIdent.vgName),
          decide (v.child.uuid = key.uuid) = decide (v.child.name = c.name) := by
        intro v hv
        rw [hkeyUuid]
        exact decide_eq_decide.2 (hvolume v.child (List.mem_map_of_mem hv))
      rw [List.filter_congr hfilter]
      exact devIdents_perm hnames hsame hc hlisted

end Volumes

/-- A physical volume on `disk4s1` with two volumes and one on `disk5` with the second of them, each volume with the given UUID. -/
def twoVolumes (uuidA uuidB : Option (List Char)) : LsBlk :=
  ⟨[{ name := "vda".toList, fstype := some "LVM2_member".toList,
      children := [{ name := "vg-a".toList, uuid := uuidA }, { name := "vg-b".toList, uuid := uuidB }] },
    { name := "vdb".toList, fstype := some "LVM2_member".toList, children := [{ name := "vg-b".toList, uuid := uuidB }] }]⟩

/-- The devices of the two physical volumes. -/
def twoDevices : List (List Char) := ["disk4s1".toList, "disk5".toList]

theorem twoVolumes_lvmNames (uuidA uuidB : Option (List Char)) : (twoVolumes uuidA uuidB).LvmNames twoDevices := by
  have hvalid : ∀ name ∈ ["vg-a".toList, "vg-b".toList], ∃ vgName lvName, ValidNames vgName lvName ∧ name = dmName vgName lvName := by
    intro name hname
    simp only [List.mem_cons, List.not_mem_nil, or_false] at hname
    rcases hname with rfl | rfl
    · exact ⟨"vg".toList, "a".toList, ⟨by decide, by decide, by decide⟩, by decide⟩
    · exact ⟨"vg".toList, "b".toList, ⟨by decide, by decide, by decide⟩, by decide⟩
  have hpvs : ((twoVolumes uuidA uuidB).physicalVolumes twoDevices).map (fun p => p.2.children.map LsBlkDevice.name) =
      [["vg-a".toList, "vg-b".toList], ["vg-b".toList]] := rfl
  intro p hp
  have hp' := List.mem_map_of_mem (f := fun p : List Char × LsBlkDevice => p.2.children.map LsBlkDevice.name) hp
  rw [hpvs] at hp'
  simp only [List.mem_cons, List.not_mem_nil, or_false] at hp'
  refine ⟨?_, fun child hchild => hvalid _ ?_⟩
  · rcases hp' with h | h <;> rw [h] <;> decide
  · have hname := List.mem_map_of_mem (f := LsBlkDevice.name) hchild
    rcases hp' with h | h <;> rw [h] at hname
    · exact hname
    · exact List.mem_cons_of_mem _ hname

theorem twoVolumes_sameColumns (uuidA uuidB : Option (List Char)) : (twoVolumes uuidA uuidB).SameColumns twoDevices := by
  have hvolumes : (twoVolumes uuidA uuidB).logicalVolumes twoDevices =
      [{ name := "vg-a".toList, uuid := uuidA }, { name := "vg-b".toList, uuid := uuidB },
        { name := "vg-b".toList, uuid := uuidB }] := rfl
  intro a ha b hb
  rw [hvolumes] at ha hb
  simp only [List.mem_cons, List.not_mem_nil, or_false] at ha hb
  rcases ha with rfl | rfl | rfl <;> rcases hb with rfl | rfl | rfl <;> simp

/-- Two volumes with a file system each are both listed. -/
theorem volumesListed_iff_formatted :
    (twoVolumes (some "1234-ABCD".toList) (some "5678-EF01".toList)).VolumesListed (fun _ => 0) twoDevices := by
  refine (volumesListed_iff (twoVolumes_lvmNames _ _) (twoVolumes_sameColumns _ _)).2 fun vgName a ha b hb _ _ huuid => ?_
  have h : ∀ a ∈ (twoVolumes (some "1234-ABCD".toList) (some "5678-EF01".toList)).logicalVolumes twoDevices,
      ∀ b ∈ (twoVolumes (some "1234-ABCD".toList) (some "5678-EF01".toList)).logicalVolumes twoDevices,
        a.uuid = b.uuid → a.name = b.name := by decide
  exact h a ha b hb huuid

/-- Of two volumes without a file system only the first is listed. -/
theorem volumesListed_false :
    ¬∀ (parseLvSize : List Char → UInt64) (lsblk : LsBlk) (pvDevIdents : List (List Char)), lsblk.LvmNames pvDevIdents →
      lsblk.SameColumns pvDevIdents → lsblk.VolumesListed parseLvSize pvDevIdents := by
  intro h
  obtain ⟨entries, hentries, hall⟩ := h (fun _ => 0) (twoVolumes none none) twoDevices (twoVolumes_lvmNames none none)
    (twoVolumes_sameColumns none none)
  have hvolumes : (twoVolumes none none).logicalVolumes twoDevices =
      [{ name := "vg-a".toList }, { name := "vg-b".toList }, { name := "vg-b".toList }] := rfl
  have hnone : ((VolumeMap.fromLsblk (fun _ => 0) (twoVolumes none none) twoDevices).buildEntries).map
      (fun entries => identsOf entries ⟨"vg".toList, "b".toList⟩) = some [] := by decide
  have hname : LvIdent.fromStr "vg-b".toList = .ok ⟨"vg".toList, "b".toList⟩ := by decide
  obtain ⟨lvIdent, devs, hok, hrows, -⟩ := hall { name := "vg-b".toList } (hvolumes ▸ by simp) rfl
  obtain rfl := Except.ok.inj (hok.symm.trans hname)
  rw [hentries, Option.map_some, Option.some.injEq, hrows] at hnone
  cases hnone

end Anylinuxfs
