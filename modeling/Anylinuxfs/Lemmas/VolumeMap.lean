import Mathlib.Data.List.Perm.Basic
import Anylinuxfs.Lib.Correspond
import Anylinuxfs.VolumeMap

/-!
# Names and volumes

A device mapper's name is read back as the two names it was made of (`fromStr_dmName`).
-/

namespace Anylinuxfs

/-! ## Names -/

/-- What is taken from the front of a text, and what is left, where the text changes from one kind of characters to the other. -/
theorem takeWhile_append_of_head {p : Char → Bool} {s t : List Char} (hs : ∀ c ∈ s, p c = true) (ht : ∀ c ∈ t.head?, p c = false) :
    (s ++ t).takeWhile p = s ∧ (s ++ t).dropWhile p = t := by
  rw [List.takeWhile_append_of_pos hs, List.dropWhile_append_of_pos hs, dropWhile_of_head ht]
  refine ⟨?_, rfl⟩
  cases t with
  | nil => rw [List.takeWhile_nil, List.append_nil]
  | cons c t => rw [List.takeWhile_cons_of_neg (by simp [ht c rfl]), List.append_nil]

/-- A text is a part without hyphens, a run of hyphens and the rest, and there is a rest only after a run. -/
theorem exists_runs (s : List Char) : ∃ a k t, s = a ++ (List.replicate k '-' ++ t) ∧ (∀ c ∈ a, c ≠ '-') ∧
    t.head? ≠ some '-' ∧ (t ≠ [] → 0 < k) := by
  obtain ⟨b, hb⟩ : ∃ b, s.dropWhile (· ≠ '-') = b := ⟨_, rfl⟩
  have hrun : b.takeWhile (· = '-') = List.replicate (b.takeWhile (· = '-')).length '-' := by
    refine List.eq_replicate_iff.2 ⟨rfl, fun c hc => ?_⟩
    simpa using List.all_eq_true.1 List.all_takeWhile c hc
  have hb_head : ∀ c ∈ b.head?, c = '-' := by
    intro c hc
    have := List.head?_dropWhile_not (fun c => decide (c ≠ '-')) s
    rw [hb, Option.mem_def.1 hc] at this
    simpa using this
  refine ⟨s.takeWhile (· ≠ '-'), (b.takeWhile (· = '-')).length, b.dropWhile (· = '-'), ?_, ?_, ?_, ?_⟩
  · rw [← hrun, List.takeWhile_append_dropWhile, ← hb, List.takeWhile_append_dropWhile]
  · intro c hc
    simpa using List.all_eq_true.1 List.all_takeWhile c hc
  · intro h
    have := List.head?_dropWhile_not (fun c => decide (c = '-')) b
    rw [h] at this
    simp at this
  · intro h
    cases b with
    | nil => exact absurd rfl h
    | cons c b =>
      rw [hb_head c rfl, List.takeWhile_cons_of_pos (by simp), List.length_cons]
      exact Nat.succ_pos _

theorem escapeDashes_eq (name : List Char) : escapeDashes name = name.flatMap fun c => if c = '-' then ['-', '-'] else [c] :=
  replace_char '-' ['-', '-'] name

/-- A turn of the loop takes a part without hyphens and a run of hyphens. -/
theorem vgLoop_succ {turns k : Nat} {a t : List Char} (ha : ∀ c ∈ a, c ≠ '-') (ht : t.head? ≠ some '-') (hk : 0 < k) :
    vgLoop (turns + 1) (a ++ (List.replicate k '-' ++ t)) =
      if k % 2 = 1 then (a ++ List.replicate (k / 2) '-', t)
      else (a ++ List.replicate (k / 2) '-' ++ (vgLoop turns t).1, (vgLoop turns t).2) := by
  have hrun : ∀ c ∈ (List.replicate k '-' ++ t).head?, decide (c ≠ '-') = false := by
    cases k with
    | zero => cases hk
    | succ k => simp [List.replicate_succ]
  have hrest : ∀ c ∈ t.head?, decide (c = '-') = false := by
    intro c hc
    exact decide_eq_false fun heq => ht (heq ▸ Option.mem_def.1 hc)
  obtain ⟨htake, hdrop⟩ := takeWhile_append_of_head (p := fun c => decide (c ≠ '-')) (by simpa using ha) hrun
  obtain ⟨htake', hdrop'⟩ := takeWhile_append_of_head (p := fun c => decide (c = '-')) (s := List.replicate k '-') (by simp) hrest
  have hne : a ++ (List.replicate k '-' ++ t) ≠ [] := by simp [Nat.ne_of_gt hk]
  rw [vgLoop, if_neg hne]
  simp only [htake, hdrop, htake', hdrop', List.length_replicate]

/-- The loop finds the single hyphen that parts the names. -/
theorem vgLoop_escapeDashes {turns : Nat} {vgName t : List Char} (hturns : (escapeDashes vgName ++ '-' :: t).length ≤ turns)
    (ht : t.head? ≠ some '-') : vgLoop turns (escapeDashes vgName ++ '-' :: t) = (vgName, t) := by
  induction turns generalizing vgName with
  | zero =>
    rw [List.length_append, List.length_cons] at hturns
    omega
  | succ turns ih =>
    obtain ⟨a, k, rest, rfl, ha, hrest, hk⟩ := exists_runs vgName
    have ha_escape : escapeDashes a = a := by
      rw [escapeDashes_eq]
      exact (List.flatMap_congr fun c hc => if_neg (ha c hc)).trans (List.flatMap_singleton' a)
    have hrun_escape : escapeDashes (List.replicate k '-') = List.replicate (2 * k) '-' := by
      rw [escapeDashes_eq, List.flatMap_replicate, if_pos rfl, Nat.mul_comm]
      change (List.replicate k (List.replicate 2 '-')).flatten = _
      rw [List.flatten_replicate_replicate]
    have happend : ∀ s s', escapeDashes (s ++ s') = escapeDashes s ++ escapeDashes s' := fun s s' => by
      rw [escapeDashes_eq, escapeDashes_eq, escapeDashes_eq, List.flatMap_append]
    rw [happend, happend, ha_escape, hrun_escape] at hturns ⊢
    cases rest with
    | nil =>
      -- the run ends in the hyphen that parts the names
      have hlast : a ++ (List.replicate (2 * k) '-' ++ escapeDashes []) ++ '-' :: t =
          a ++ (List.replicate (2 * k + 1) '-' ++ t) := by
        rw [List.replicate_succ', escapeDashes_eq]
        simp
      rw [hlast, vgLoop_succ ha ht (by omega), if_pos (by omega), show (2 * k + 1) / 2 = k by omega, List.append_nil]
    | cons c rest =>
      have hc : c ≠ '-' := fun heq => hrest (heq ▸ rfl)
      have hhead : (escapeDashes (c :: rest) ++ '-' :: t).head? ≠ some '-' := by
        rw [escapeDashes_eq, List.flatMap_cons, if_neg hc]
        simpa using hc
      have hpos : 0 < k := hk (List.cons_ne_nil c rest)
      have hmore : vgLoop turns (escapeDashes (c :: rest) ++ '-' :: t) = (c :: rest, t) := by
        refine ih ?_
        simp only [List.length_append, List.length_replicate] at hturns ⊢
        omega
      rw [List.append_assoc, List.append_assoc, vgLoop_succ ha hhead (by omega), if_neg (by omega), hmore,
        show 2 * k / 2 = k by omega, List.append_assoc]

/-- Pairs of hyphens are made single again. -/
theorem replace_escapeDashes (name : List Char) : replace "--".toList "-".toList (escapeDashes name) = name := by
  change replaceFrom ['-', '-'] ['-'] 0 (escapeDashes name) = name
  rw [escapeDashes_eq]
  induction name with
  | nil => rfl
  | cons c name ih =>
    rw [List.flatMap_cons]
    by_cases hc : c = '-'
    · rw [if_pos hc, hc]
      exact congrArg ('-' :: ·) ih
    · rw [if_neg hc, List.singleton_append, replaceFrom, if_neg (by simp [Ne.symm hc]), ih]

/-- The device mapper's name of a volume is read back as the names of the group and the volume. -/
theorem fromStr_dmName {vgName lvName : List Char} (h : ValidNames vgName lvName) :
    LvIdent.fromStr (dmName vgName lvName) = .ok ⟨vgName, lvName⟩ := by
  obtain ⟨hvg, hlv, hhead⟩ := h
  have hname : dmName vgName lvName = escapeDashes vgName ++ '-' :: escapeDashes lvName := List.append_assoc _ ['-'] _
  have hlv_head : (escapeDashes lvName).head? ≠ some '-' := by
    cases lvName with
    | nil => exact absurd rfl hlv
    | cons c lvName =>
      have hc : c ≠ '-' := fun heq => hhead (heq ▸ rfl)
      rw [escapeDashes_eq, List.flatMap_cons, if_neg hc]
      simpa using hc
  unfold LvIdent.fromStr
  rw [hname, vgLoop_escapeDashes (Nat.le_refl _) hlv_head]
  simp only [replace_escapeDashes]
  rw [if_neg (not_or.2 ⟨hvg, hlv⟩)]

theorem dmName_injective {vg₁ lv₁ vg₂ lv₂ : List Char} (h₁ : ValidNames vg₁ lv₁) (h₂ : ValidNames vg₂ lv₂)
    (h : dmName vg₁ lv₁ = dmName vg₂ lv₂) : vg₁ = vg₂ ∧ lv₁ = lv₂ := by
  have hparsed := (fromStr_dmName h₁).symm.trans (h ▸ fromStr_dmName h₂)
  simpa using hparsed

/-! ## The walk -/

/-- The walk at a child of a device. -/
structure Visit where
  devIdent : List Char
  blkdev : LsBlkDevice
  j : Nat
  child : LsBlkDevice

mutual

/-- The children that `iterate_children` comes to, from the child with the number `j` on. -/
def visitsFrom (devIdent : List Char) (blkdev : LsBlkDevice) : Nat → List LsBlkDevice → List Visit
  | _, [] => []
  | j, child :: rest => ⟨devIdent, blkdev, j, child⟩ :: (visits devIdent child ++ visitsFrom devIdent blkdev (j + 1) rest)

/-- The children that `iterate_children` comes to. -/
def visits (devIdent : List Char) : LsBlkDevice → List Visit
  | ⟨name, size, fstype, pttype, label, uuid, children⟩ => visitsFrom devIdent ⟨name, size, fstype, pttype, label, uuid, children⟩ 0 children

end

section Walk

variable {parseLvSize : List Char → UInt64}

mutual

theorem iterateFrom_eq_foldl (devIdent : List Char) (blkdev : LsBlkDevice) : ∀ (j : Nat) (children : List LsBlkDevice)
    (volMap : VolumeMap), iterateFrom parseLvSize devIdent blkdev j children volMap =
      (visitsFrom devIdent blkdev j children).foldl
        (fun volMap v => volMap.addChild parseLvSize v.devIdent v.blkdev v.j v.child) volMap
  | _, [], _ => rfl
  | j, child :: rest, volMap => by
    rw [iterateFrom, visitsFrom, List.foldl_cons, List.foldl_append, iterateChildren_eq_foldl devIdent child,
      iterateFrom_eq_foldl devIdent blkdev (j + 1) rest]

/-- The walk notes one child after another. -/
theorem iterateChildren_eq_foldl (devIdent : List Char) : ∀ (dev : LsBlkDevice) (volMap : VolumeMap),
    iterateChildren parseLvSize devIdent dev volMap = (visits devIdent dev).foldl
      (fun volMap v => volMap.addChild parseLvSize v.devIdent v.blkdev v.j v.child) volMap
  | ⟨name, size, fstype, pttype, label, uuid, children⟩, volMap => by
    rw [iterateChildren, visits, iterateFrom_eq_foldl]

end

/-- The children of a device, each with its number. -/
def LsBlkDevice.ownVisits (devIdent : List Char) (blkdev : LsBlkDevice) : List Visit :=
  blkdev.children.mapIdx fun j child => ⟨devIdent, blkdev, j, child⟩

mutual

theorem visitsFrom_perm (devIdent : List Char) (blkdev : LsBlkDevice) : ∀ (j : Nat) (children : List LsBlkDevice),
    (visitsFrom devIdent blkdev j children).Perm
      (children.mapIdx (fun i child => ⟨devIdent, blkdev, j + i, child⟩) ++
        (devicesOf children).flatMap (LsBlkDevice.ownVisits devIdent))
  | _, [] => .nil
  | j, child :: rest => by
    have hchild := visits_perm devIdent child
    have hrest := visitsFrom_perm devIdent blkdev (j + 1) rest
    have hshift : (fun i child => (⟨devIdent, blkdev, j + (i + 1), child⟩ : Visit)) =
        fun i child => ⟨devIdent, blkdev, j + 1 + i, child⟩ := by
      funext i child
      rw [Nat.add_assoc, Nat.add_comm 1 i]
    rw [visitsFrom, List.mapIdx_cons, devicesOf, List.flatMap_append, hshift, List.cons_append]
    refine .cons _ ((hchild.append hrest).trans ?_)
    rw [← List.append_assoc, ← List.append_assoc]
    exact List.perm_append_comm.append_right _

/-- The walk comes to the children of every device. -/
theorem visits_perm (devIdent : List Char) : ∀ dev : LsBlkDevice,
    (visits devIdent dev).Perm (dev.devices.flatMap (LsBlkDevice.ownVisits devIdent))
  | ⟨name, size, fstype, pttype, label, uuid, children⟩ => by
    rw [visits, LsBlkDevice.devices, List.flatMap_cons]
    refine (visitsFrom_perm devIdent ⟨name, size, fstype, pttype, label, uuid, children⟩ 0 children).trans ?_
    simp only [LsBlkDevice.ownVisits, Nat.zero_add]
    exact .refl _

end

/-- A volume that is listed. -/
def Visit.Listed (v : Visit) : Prop := v.blkdev.kind = .lvm ∧ v.child.ListedIn v.child.lvIdent.vgName

instance : DecidablePred Visit.Listed := fun v =>
  inferInstanceAs (Decidable (v.blkdev.kind = .lvm ∧ v.child.ListedIn v.child.lvIdent.vgName))

/-- The volumes that are listed, in the order of the walk. -/
def LsBlk.listed (lsblk : LsBlk) (pvDevIdents : List (List Char)) : List Visit :=
  ((lsblk.blockdevices.zip pvDevIdents).flatMap fun (blkdev, devIdent) => visits devIdent blkdev).filter Visit.Listed

/-- The group of a volume is that of its name. -/
theorem inGroup_iff {vgName : List Char} {dev : LsBlkDevice} :
    dev.InGroup vgName ↔ ∃ lvIdent, LvIdent.fromStr dev.name = .ok lvIdent ∧ lvIdent.vgName = vgName := by
  unfold LsBlkDevice.InGroup
  cases LvIdent.fromStr dev.name <;> simp [Except.map]

theorem lvIdent_of_ok {dev : LsBlkDevice} {lvIdent : LvIdent} (h : LvIdent.fromStr dev.name = .ok lvIdent) :
    dev.lvIdent = lvIdent := by
  unfold LsBlkDevice.lvIdent
  rw [h]
  rfl

/-- The group of a listed volume. -/
def Visit.vgName (v : Visit) : List Char := v.child.lvIdent.vgName

/-- What a listed volume changes in the entry of its group. -/
def Visit.addLv (parseLvSize : List Char → UInt64) (v : Visit) : VgEntry → VgEntry :=
  VgEntry.addLv parseLvSize v.devIdent v.blkdev v.j v.child

/-- The entry that listed volumes make. -/
def groupEntry (parseLvSize : List Char → UInt64) (vs : List Visit) : VgEntry :=
  vs.foldl (fun entry v => v.addLv parseLvSize entry) {}

/-- The groups change only at a volume that is listed. -/
theorem volGroups_addChild (v : Visit) (volMap : VolumeMap) :
    (volMap.addChild parseLvSize v.devIdent v.blkdev v.j v.child).volGroups =
      if v.Listed then IndexMap.upsert id v.vgName {} (v.addLv parseLvSize) volMap.volGroups else volMap.volGroups := by
  unfold VolumeMap.addChild
  by_cases hsimple : v.child.kind = .simple
  · rw [if_pos hsimple]
    cases hkind : v.blkdev.kind with
    | lvm =>
      cases hname : LvIdent.fromStr v.child.name with
      | ok lvIdent =>
        have hlisted : v.Listed :=
          ⟨hkind, hsimple, inGroup_iff.2 ⟨lvIdent, hname, congrArg LvIdent.vgName (lvIdent_of_ok hname).symm⟩⟩
        rw [if_pos hlisted]
        simp only [Visit.vgName, lvIdent_of_ok hname]
        rfl
      | error text =>
        have hlisted : ¬v.Listed := by
          rintro ⟨-, -, h⟩
          obtain ⟨lvIdent, hok, -⟩ := inGroup_iff.1 h
          rw [hname] at hok
          cases hok
        rw [if_neg hlisted]
    | simple | luks | raid | bitLocker =>
      have hlisted : ¬v.Listed := by
        rintro ⟨hlvm, -, -⟩
        rw [hkind] at hlvm
        cases hlvm
      rw [if_neg hlisted]
  · rw [if_neg hsimple, if_neg fun h => hsimple h.2.1]

theorem volGroups_foldl (vs : List Visit) (volMap : VolumeMap) :
    (vs.foldl (fun volMap v => volMap.addChild parseLvSize v.devIdent v.blkdev v.j v.child) volMap).volGroups =
      (vs.filter Visit.Listed).foldl (fun m v => IndexMap.upsert id v.vgName {} (v.addLv parseLvSize) m) volMap.volGroups := by
  induction vs generalizing volMap with
  | nil => rfl
  | cons v vs ih =>
    rw [List.foldl_cons, ih, volGroups_addChild, List.filter_cons]
    by_cases h : v.Listed <;> simp [h]

/-- The groups are those of the listed volumes, and a group's entry is made by its listed volumes. -/
theorem volGroups_fromLsblk (lsblk : LsBlk) (pvDevIdents : List (List Char)) :
    (VolumeMap.fromLsblk parseLvSize lsblk pvDevIdents).volGroups =
      (IndexMap.firsts id ((lsblk.listed pvDevIdents).map Visit.vgName)).map fun vgName =>
        (vgName, groupEntry parseLvSize ((lsblk.listed pvDevIdents).filter (·.vgName = vgName))) := by
  have hwalk : ∀ (trees : List (LsBlkDevice × List Char)) (volMap : VolumeMap),
      trees.foldl (fun volMap (blkdev, devIdent) => iterateChildren parseLvSize devIdent blkdev volMap) volMap =
        (trees.flatMap fun (blkdev, devIdent) => visits devIdent blkdev).foldl
          (fun volMap v => volMap.addChild parseLvSize v.devIdent v.blkdev v.j v.child) volMap := by
    intro trees volMap
    rw [List.foldl_flatMap]
    simp only [iterateChildren_eq_foldl]
  rw [VolumeMap.fromLsblk, hwalk, volGroups_foldl]
  exact IndexMap.foldl_upsert id Visit.vgName {} (Visit.addLv parseLvSize) (lsblk.listed pvDevIdents)

/-! ## The entry of a group -/

/-- The devices are noted at the first children. -/
theorem devIdents_groupEntry (vs : List Visit) :
    (groupEntry parseLvSize vs).devIdents = (vs.filter (·.j = 0)).map Visit.devIdent := by
  have h : ∀ entry : VgEntry, (vs.foldl (fun entry v => v.addLv parseLvSize entry) entry).devIdents =
      entry.devIdents ++ (vs.filter (·.j = 0)).map Visit.devIdent := by
    induction vs with
    | nil => exact fun entry => (List.append_nil _).symm
    | cons v vs ih =>
      intro entry
      rw [List.foldl_cons, ih, List.filter_cons]
      by_cases h : v.j = 0 <;> simp [Visit.addLv, VgEntry.addLv, h]
  exact h {}

/-- The sizes are added at the first children. -/
theorem size_groupEntry (vs : List Visit) :
    (groupEntry parseLvSize vs).size.toNat = totalSize parseLvSize ((vs.filter (·.j = 0)).map Visit.blkdev) % 2 ^ 64 := by
  have h : ∀ entry : VgEntry, (vs.foldl (fun entry v => v.addLv parseLvSize entry) entry).size.toNat =
      (entry.size.toNat + totalSize parseLvSize ((vs.filter (·.j = 0)).map Visit.blkdev)) % 2 ^ 64 := by
    induction vs with
    | nil => exact fun entry => (Nat.mod_eq_of_lt entry.size.toNat_lt).symm
    | cons v vs ih =>
      intro entry
      rw [List.foldl_cons, ih, List.filter_cons]
      by_cases h : v.j = 0
      · simp [Visit.addLv, VgEntry.addLv, h, totalSize, Nat.add_assoc]
      · simp [Visit.addLv, VgEntry.addLv, h]
  refine (h {}).trans ?_
  rw [show ({} : VgEntry).size.toNat = 0 from rfl, Nat.zero_add]

/-- There is one volume for each UUID, on the devices of all volumes with the UUID. -/
theorem lvs_groupEntry (vs : List Visit) :
    (groupEntry parseLvSize vs).lvs = (IndexMap.firsts LsBlkDevice.uuid (vs.map Visit.child)).map fun child =>
      (child, (vs.filter (·.child.uuid = child.uuid)).map Visit.devIdent) := by
  have hlvs : ∀ (vs : List Visit) (entry : VgEntry), (vs.foldl (fun entry v => v.addLv parseLvSize entry) entry).lvs =
      vs.foldl (fun m v => IndexMap.upsert LsBlkDevice.uuid v.child [] (· ++ [v.devIdent]) m) entry.lvs := by
    intro vs
    induction vs with
    | nil => exact fun _ => rfl
    | cons v vs ih =>
      intro entry
      rw [List.foldl_cons, ih, List.foldl_cons]
      rfl
  have hsnoc : ∀ (vs : List Visit) (devs : List (List Char)),
      vs.foldl (fun devs v => devs ++ [v.devIdent]) devs = devs ++ vs.map Visit.devIdent := by
    intro vs
    induction vs with
    | nil => exact fun devs => (List.append_nil devs).symm
    | cons v vs ih =>
      intro devs
      rw [List.foldl_cons, ih, List.map_cons, List.append_assoc, List.singleton_append]
  refine (hlvs vs {}).trans ((IndexMap.foldl_upsert LsBlkDevice.uuid Visit.child [] (fun v devs => devs ++ [v.devIdent]) vs).trans ?_)
  simp only [hsnoc, List.nil_append]

/-! ## Listed volumes and physical volumes -/

theorem flatMap_filter {α β : Type} (p : α → Bool) (f : α → List β) (l : List α) :
    (l.filter p).flatMap f = l.flatMap fun a => if p a then f a else [] := by
  induction l with
  | nil => rfl
  | cons a l ih =>
    rw [List.filter_cons, List.flatMap_cons, ← ih]
    split <;> rfl

theorem mem_ownVisits {devIdent : List Char} {blkdev : LsBlkDevice} {v : Visit} (h : v ∈ blkdev.ownVisits devIdent) :
    v.devIdent = devIdent ∧ v.blkdev = blkdev ∧ v.child ∈ blkdev.children := by
  obtain ⟨j, hj, rfl⟩ := List.mem_mapIdx.1 h
  exact ⟨rfl, rfl, List.getElem_mem hj⟩

/-- The listed volumes of a group are the children of the physical volumes that are listed in it. -/
theorem listed_perm (lsblk : LsBlk) (pvDevIdents : List (List Char)) (vgName : List Char) :
    ((lsblk.listed pvDevIdents).filter (·.vgName = vgName)).Perm
      ((lsblk.physicalVolumes pvDevIdents).flatMap fun p =>
        (p.2.ownVisits p.1).filter (·.child.ListedIn vgName)) := by
  have hlisted : ∀ v : Visit, v.Listed ∧ v.vgName = vgName ↔ v.blkdev.kind = .lvm ∧ v.child.ListedIn vgName := by
    intro v
    constructor
    · rintro ⟨⟨hkind, hchild⟩, rfl⟩
      exact ⟨hkind, hchild⟩
    · rintro ⟨hkind, hsimple, hgroup⟩
      obtain ⟨lvIdent, hname, rfl⟩ := inGroup_iff.1 hgroup
      have hvg : v.vgName = lvIdent.vgName := congrArg LvIdent.vgName (lvIdent_of_ok hname)
      have hown : v.child.InGroup v.vgName := by rwa [hvg]
      exact ⟨⟨hkind, hsimple, hown⟩, hvg⟩
  unfold LsBlk.listed LsBlk.physicalVolumes
  rw [List.filter_filter, List.filter_flatMap, List.flatMap_assoc]
  refine List.Perm.flatMap_left _ fun ⟨blkdev, devIdent⟩ _ => ?_
  refine ((visits_perm devIdent blkdev).filter _).trans (.of_eq ?_)
  rw [List.filter_flatMap, List.flatMap_map, flatMap_filter]
  refine List.flatMap_congr fun dev _ => ?_
  have hown : ∀ v ∈ dev.ownVisits devIdent, (decide (v.vgName = vgName) && decide v.Listed) =
      (decide (dev.kind = .lvm) && decide (v.child.ListedIn vgName)) := by
    intro v hv
    rw [Bool.and_comm, ← Bool.decide_and, ← Bool.decide_and, ← (mem_ownVisits hv).2.1]
    exact decide_eq_decide.2 (hlisted v)
  rw [List.filter_congr hown]
  by_cases hkind : dev.kind = .lvm <;> simp [hkind]

theorem mem_groups_iff {lsblk : LsBlk} {pvDevIdents : List (List Char)} {vgName : List Char} :
    vgName ∈ (lsblk.listed pvDevIdents).map Visit.vgName ↔ lsblk.carriers pvDevIdents vgName ≠ [] := by
  have hgroup : vgName ∈ (lsblk.listed pvDevIdents).map Visit.vgName ↔
      ∃ v, v ∈ (lsblk.listed pvDevIdents).filter (·.vgName = vgName) := by
    simp
  have hcarriers : lsblk.carriers pvDevIdents vgName ≠ [] ↔
      ∃ p ∈ lsblk.physicalVolumes pvDevIdents, ∃ child ∈ p.2.children, child.ListedIn vgName := by
    simp [LsBlk.carriers]
  rw [hgroup, hcarriers]
  simp only [(listed_perm lsblk pvDevIdents vgName).mem_iff, List.mem_flatMap, List.mem_filter, decide_eq_true_eq]
  constructor
  · rintro ⟨v, p, hp, hv, hlisted⟩
    exact ⟨p, hp, v.child, (mem_ownVisits hv).2.2, hlisted⟩
  · rintro ⟨p, hp, child, hchild, hlisted⟩
    obtain ⟨j, hj, rfl⟩ := List.getElem_of_mem hchild
    exact ⟨⟨p.1, p.2, j, p.2.children[j]⟩, p, hp, List.mem_mapIdx.2 ⟨j, hj, rfl⟩, hlisted⟩

/-- The first listed children are those of the leaders. -/
theorem firstChildren_perm (lsblk : LsBlk) (pvDevIdents : List (List Char)) (vgName : List Char) :
    ((((lsblk.listed pvDevIdents).filter (·.vgName = vgName)).filter (·.j = 0)).map fun v => (v.devIdent, v.blkdev)).Perm
      (lsblk.leaders pvDevIdents vgName) := by
  have hfirst : ∀ p : List Char × LsBlkDevice,
      (((p.2.ownVisits p.1).filter (·.child.ListedIn vgName)).filter (·.j = 0)).map (fun v => (v.devIdent, v.blkdev)) =
        if p.2.children.head?.any (·.ListedIn vgName) then [p] else [] := by
    rintro ⟨devIdent, pv⟩
    unfold LsBlkDevice.ownVisits
    cases pv.children with
    | nil => rfl
    | cons child rest =>
      have hrest : ((rest.mapIdx fun i child => (⟨devIdent, pv, i + 1, child⟩ : Visit)).filter
          (·.child.ListedIn vgName)).filter (·.j = 0) = [] := by
        refine List.filter_eq_nil_iff.2 fun v hv => ?_
        obtain ⟨i, hi, rfl⟩ := List.mem_mapIdx.1 (List.mem_filter.1 hv).1
        simp
      rw [List.mapIdx_cons, List.filter_cons]
      by_cases h : child.ListedIn vgName
      · simp [h, hrest]
      · simp [h, hrest]
  refine ((((listed_perm lsblk pvDevIdents vgName).filter _).map _).trans (.of_eq ?_))
  rw [List.filter_flatMap, List.map_flatMap]
  simp only [hfirst]
  exact (flatMap_filter _ (fun p => [p]) _).symm.trans (List.flatMap_singleton' _)

/-! ## The entries of the list -/

/-- The row of a volume with the name of a logical volume. -/
def volumeRow (j : Nat) (p : LsBlkDevice × List (List Char)) : VolumeRow :=
  ⟨j + 1, p.1.fstype.getD [], p.1.label.getD [], p.1.size, .lv p.2 p.1.lvIdent⟩

/-- A device with the name of a logical volume. -/
def LsBlkDevice.IsLv (dev : LsBlkDevice) : Prop := LvIdent.fromStr dev.name = .ok dev.lvIdent

theorem isLv_of_inGroup {vgName : List Char} {dev : LsBlkDevice} (h : dev.InGroup vgName) :
    dev.IsLv ∧ dev.lvIdent.vgName = vgName := by
  obtain ⟨lvIdent, hname, hvg⟩ := inGroup_iff.1 h
  have hident := lvIdent_of_ok hname
  exact ⟨hname.trans (congrArg Except.ok hident.symm), hident ▸ hvg⟩

theorem lvRows_eq {lvs : List (LsBlkDevice × List (List Char))} (h : ∀ p ∈ lvs, p.1.IsLv) (j : Nat) :
    lvRows j lvs = some (lvs.mapIdx fun i p => volumeRow (j + i) p) := by
  induction lvs generalizing j with
  | nil => rfl
  | cons p lvs ih =>
    have hrow : lvRow j p.1 p.2 = some (volumeRow j p) := by
      unfold lvRow
      rw [h p List.mem_cons_self]
      rfl
    have hshift : (fun i q => volumeRow (j + (i + 1)) q) = fun i q => volumeRow (j + 1 + i) q := by
      funext i q
      rw [Nat.add_assoc, Nat.add_comm 1 i]
    rw [lvRows, hrow, ih (fun q hq => h q (List.mem_cons_of_mem p hq)), List.mapIdx_cons, hshift]
    rfl

/-- The entry of a group in the list. -/
def groupRows (vgName : List Char) (entry : VgEntry) : VolumeEntry :=
  ⟨vgHeadline vgName, some (entry.size, vgName, entry.devIdents), entry.lvs.mapIdx volumeRow⟩

/-- The volumes of a group are volumes that are listed in it. -/
theorem exists_listed_of_mem_lvs {vs : List Visit} {p : LsBlkDevice × List (List Char)}
    (h : p ∈ (groupEntry parseLvSize vs).lvs) : ∃ v ∈ vs, v.child = p.1 := by
  rw [lvs_groupEntry] at h
  obtain ⟨child, hchild, rfl⟩ := List.mem_map.1 h
  exact List.mem_map.1 (IndexMap.mem_of_mem_firsts hchild)

/-- The list never panics, and has one entry for each RAID volume and each group. -/
theorem buildEntries_fromLsblk (lsblk : LsBlk) (pvDevIdents : List (List Char)) :
    (VolumeMap.fromLsblk parseLvSize lsblk pvDevIdents).buildEntries =
      some ((VolumeMap.fromLsblk parseLvSize lsblk pvDevIdents).raidVolumes.map (fun p => raidEntry p.2) ++
        (VolumeMap.fromLsblk parseLvSize lsblk pvDevIdents).volGroups.map fun p => groupRows p.1 p.2) := by
  have hgroup : ∀ p ∈ (VolumeMap.fromLsblk parseLvSize lsblk pvDevIdents).volGroups,
      ∃ vs, p.2 = groupEntry parseLvSize vs ∧ vs ≠ [] ∧ ∀ v ∈ vs, v.child.IsLv := by
    intro p hp
    rw [volGroups_fromLsblk] at hp
    obtain ⟨vgName, hvg, rfl⟩ := List.mem_map.1 hp
    obtain ⟨v, hv, hvgName⟩ := List.mem_map.1 (IndexMap.mem_of_mem_firsts hvg)
    refine ⟨_, rfl, List.ne_nil_of_mem (List.mem_filter.2 ⟨hv, decide_eq_true hvgName⟩), fun w hw => ?_⟩
    have hlisted := of_decide_eq_true (List.mem_filter.1 (List.mem_filter.1 hw).1).2
    exact (isLv_of_inGroup hlisted.2.2).1
  have hentry : ∀ p ∈ (VolumeMap.fromLsblk parseLvSize lsblk pvDevIdents).volGroups,
      vgEntry p.1 p.2 = some (groupRows p.1 p.2) := by
    intro p hp
    obtain ⟨vs, hvs, -, hlv⟩ := hgroup p hp
    unfold vgEntry
    rw [lvRows_eq (fun q hq => ?_), Option.map_some]
    · simp only [Nat.zero_add]
      rfl
    · rw [hvs] at hq
      obtain ⟨v, hv, heq⟩ := exists_listed_of_mem_lvs hq
      exact heq ▸ hlv v hv
  have hrows : ∀ p ∈ (VolumeMap.fromLsblk parseLvSize lsblk pvDevIdents).volGroups, (groupRows p.1 p.2).partitions ≠ [] := by
    intro p hp
    obtain ⟨vs, hvs, hne, -⟩ := hgroup p hp
    obtain ⟨v, vs, rfl⟩ := List.exists_cons_of_ne_nil hne
    unfold groupRows
    rw [hvs, lvs_groupEntry, List.map_cons, IndexMap.firsts, List.map_cons, List.mapIdx_cons]
    exact List.cons_ne_nil _ _
  have hmapM : (VolumeMap.fromLsblk parseLvSize lsblk pvDevIdents).volGroups.mapM (fun p => vgEntry p.1 p.2) =
      some ((VolumeMap.fromLsblk parseLvSize lsblk pvDevIdents).volGroups.map fun p => groupRows p.1 p.2) :=
    Correspond.mapM_eq_some hentry
  have hbuild : (VolumeMap.fromLsblk parseLvSize lsblk pvDevIdents).buildEntries =
      ((VolumeMap.fromLsblk parseLvSize lsblk pvDevIdents).volGroups.mapM fun p => vgEntry p.1 p.2).bind fun groups =>
        some ((VolumeMap.fromLsblk parseLvSize lsblk pvDevIdents).raidVolumes.map (fun p => raidEntry p.2) ++
          groups.filter fun entry => entry.partitions ≠ []) := rfl
  rw [hbuild, hmapM]
  refine congrArg some (congrArg _ (List.filter_eq_self.2 fun entry he => ?_))
  obtain ⟨p, hp, rfl⟩ := List.mem_map.1 he
  exact decide_eq_true (hrows p hp)

/-- The rows of a group are those of its volumes. -/
theorem exists_lvRow_of_lvRows {lvs : List (LsBlkDevice × List (List Char))} {j : Nat} {rows : List VolumeRow}
    (h : lvRows j lvs = some rows) {child : LsBlkDevice} {devs : List (List Char)} (hmem : (child, devs) ∈ lvs) :
    ∃ i, ∃ row ∈ rows, lvRow i child devs = some row := by
  induction lvs generalizing j rows with
  | nil => cases hmem
  | cons p lvs ih =>
    obtain ⟨row, hrow, h⟩ := Option.bind_eq_some_iff.1 h
    obtain ⟨rest, hrest, h⟩ := Option.bind_eq_some_iff.1 h
    obtain rfl := Option.some.inj h
    rcases List.mem_cons.1 hmem with rfl | hmem
    · exact ⟨j, row, List.mem_cons_self, hrow⟩
    · obtain ⟨i, row', hrow', hi⟩ := ih hrest hmem
      exact ⟨i, row', List.mem_cons_of_mem row hrow', hi⟩

/-- The entry of a group is in the list, with a row for each of its volumes. -/
theorem exists_lvRow_of_buildEntries {volMap : VolumeMap} {entries : List VolumeEntry} (h : volMap.buildEntries = some entries)
    {group : List Char} {entry : VgEntry} (hgroup : (group, entry) ∈ volMap.volGroups) {child : LsBlkDevice}
    {devs : List (List Char)} (hmem : (child, devs) ∈ entry.lvs) :
    ∃ shown ∈ entries, shown.disk = vgHeadline group ∧ ∃ i, ∃ row ∈ shown.partitions, lvRow i child devs = some row := by
  obtain ⟨groups, hgroups, h⟩ := Option.bind_eq_some_iff.1 h
  obtain rfl := Option.some.inj h
  obtain ⟨shown, hshown, hentry⟩ := Correspond.exists_right (Correspond.mapM_eq_some_iff.1 hgroups) hgroup
  obtain ⟨rows, hrows, rfl⟩ := Option.map_eq_some_iff.1 hentry
  obtain ⟨i, row, hrow, hi⟩ := exists_lvRow_of_lvRows hrows hmem
  refine ⟨_, List.mem_append_right _ (List.mem_filter.2 ⟨hshown, decide_eq_true ?_⟩), rfl, i, row, hrow, hi⟩
  exact List.ne_nil_of_mem hrow

theorem vgHeadline_injective {vg₁ vg₂ : List Char} (h : vgHeadline vg₁ = vgHeadline vg₂) : vg₁ = vg₂ :=
  List.append_cancel_left (List.append_cancel_right h)

/-- The headline of a RAID volume is none of a volume group. -/
theorem raidEntry_disk_ne (entry : RaidEntry) (vgName : List Char) : (raidEntry entry).disk ≠ vgHeadline vgName := by
  intro h
  have hhead : (raidEntry entry).disk.head? = (vgHeadline vgName).head? := congrArg List.head? h
  have hchar : some 'r' = some 'l' := hhead
  cases hchar

/-- The rows with the names of a volume are those of the volumes of the group that came first with their UUIDs. -/
theorem identsOf_fromLsblk {lsblk : LsBlk} {pvDevIdents : List (List Char)} {entries : List VolumeEntry}
    (h : (VolumeMap.fromLsblk parseLvSize lsblk pvDevIdents).buildEntries = some entries) (lvIdent : LvIdent) :
    identsOf entries lvIdent =
      ((IndexMap.firsts LsBlkDevice.uuid
        (((lsblk.listed pvDevIdents).filter (·.vgName = lvIdent.vgName)).map Visit.child)).filter (·.lvIdent = lvIdent)).map
        fun child => .lv ((((lsblk.listed pvDevIdents).filter (·.vgName = lvIdent.vgName)).filter
          (·.child.uuid = child.uuid)).map Visit.devIdent) lvIdent := by
  rw [buildEntries_fromLsblk] at h
  obtain rfl := Option.some.inj h
  obtain ⟨vgName, lvName⟩ := lvIdent
  obtain ⟨ls, hls⟩ : ∃ ls, (lsblk.listed pvDevIdents).filter (·.vgName = vgName) = ls := ⟨_, rfl⟩
  have hraid : ((VolumeMap.fromLsblk parseLvSize lsblk pvDevIdents).raidVolumes.map fun p => raidEntry p.2).filter
      (·.disk = vgHeadline vgName) = [] := by
    refine List.filter_eq_nil_iff.2 fun entry he => ?_
    obtain ⟨p, -, rfl⟩ := List.mem_map.1 he
    exact fun heq => raidEntry_disk_ne p.2 vgName (of_decide_eq_true heq)
  have hgroups : (((VolumeMap.fromLsblk parseLvSize lsblk pvDevIdents).volGroups.map fun p => groupRows p.1 p.2).filter
      (·.disk = vgHeadline vgName)).flatMap (fun entry => entry.partitions.map VolumeRow.ident) =
        (groupEntry parseLvSize ls).lvs.map fun p => .lv p.2 p.1.lvIdent := by
    have hrows : ((groupRows vgName (groupEntry parseLvSize ls)).partitions.map VolumeRow.ident) =
        (groupEntry parseLvSize ls).lvs.map fun p => .lv p.2 p.1.lvIdent :=
      List.ext_getElem (by simp [groupRows]) (by simp [groupRows, volumeRow])
    rw [volGroups_fromLsblk, List.map_map, List.filter_map, List.flatMap_map]
    by_cases hvg : vgName ∈ (lsblk.listed pvDevIdents).map Visit.vgName
    · have hmem : vgName ∈ IndexMap.firsts id ((lsblk.listed pvDevIdents).map Visit.vgName) := by
        obtain ⟨vgName', hmem, heq⟩ : ∃ vgName' ∈ IndexMap.firsts id ((lsblk.listed pvDevIdents).map Visit.vgName),
          id vgName' = id vgName := IndexMap.exists_mem_firsts hvg
        rwa [← show vgName' = vgName from heq]
      rw [IndexMap.filter_firsts hmem fun vgName' _ => ?_]
      · rw [List.flatMap_singleton, ← hrows, ← hls]
        rfl
      · exact decide_eq_true_iff.trans ⟨vgHeadline_injective, fun heq => congrArg vgHeadline heq⟩
    · have hnone : ls = [] := by
        rw [← hls]
        exact List.filter_eq_nil_iff.2 fun v hv heq => hvg (List.mem_map.2 ⟨v, hv, of_decide_eq_true heq⟩)
      rw [List.filter_eq_nil_iff.2 fun vgName' hvg' heq => hvg ?_, hnone]
      · rfl
      · exact vgHeadline_injective (of_decide_eq_true heq) ▸ IndexMap.mem_of_mem_firsts hvg'
  unfold identsOf
  rw [List.filter_append, hraid, List.nil_append, hgroups, lvs_groupEntry, List.map_map, List.filter_map]
  subst hls
  refine List.map_congr_left fun child hchild => ?_
  have hident : child.lvIdent = ⟨vgName, lvName⟩ := of_decide_eq_true (List.mem_filter.1 hchild).2
  exact congrArg (VolumeIdent.lv _) hident

end Walk

end Anylinuxfs
