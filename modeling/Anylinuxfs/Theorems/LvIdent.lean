import Anylinuxfs.ClaimDevices
import Anylinuxfs.Lemmas.VolumeMap

/-!
# The identifier of a logical volume

`list` prints a logical volume as `vg:devices:lv`, and `mount` takes this behind `lvm:`. The names go through the encoding of the
device mapper on both sides, and come back as they were.
-/

namespace Anylinuxfs

open Interact (Prog)

/-- The tokens are resolved one after the other, in the calls of the log, and none of them is a block device that is mounted. -/
inductive Resolves (mountTable : List Bytes) (readOnly : Bool) :
    List (List Char) → List (Σ c, SysCall.Answer c) → List DevInfo → List Desc → Prop where
  | nil : Resolves mountTable readOnly [] [] [] []
  | cons {token : List Char} {tokens : List (List Char)} {before after : List (Σ c, SysCall.Answer c)} {devInfo : DevInfo}
      {devInfos : List DevInfo} {disk : Desc} {disks : List Desc}
      (hfirst : (resolveDiskToken token readOnly).Yields before (devInfo, disk))
      (hmounted : ¬(devInfo.isImage = false ∧ devInfo.path ∈ mountTable))
      (hrest : Resolves mountTable readOnly tokens after devInfos disks) :
      Resolves mountTable readOnly (token :: tokens) (before ++ after) (devInfo :: devInfos) (disk :: disks)

/-- `claim_devices` resolves the given tokens in their order, refuses those that are mounted, and then names the device to mount
in the guest. -/
structure ClaimsVolume (config : MountConfig) (tokens : List (List Char)) (vmPath : List Char) : Prop where
  program : ∃ finish : List DevInfo → List Desc → Claimed,
    (∀ devInfos disks, (finish devInfos disks).devInfos = devInfos ∧ (finish devInfos disks).disks = disks ∧
      (finish devInfos disks).mntDevInfo.vmPath = vmPath) ∧
    claimDevices config = (do
      let mountTable ← orBail (← sys .mountTable)
      let (devInfos, disks) ← claimLoop (claimMember mountTable config.readOnly) tokens [] []
      pure (finish devInfos disks))
  /-- what a run returns that does not fail, and that it does not fail where no token does -/
  resolves : ∀ log devInfos disks,
    (∃ claimed, (claimDevices config).Yields log claimed ∧ claimed.devInfos = devInfos ∧ claimed.disks = disks ∧
      claimed.mntDevInfo.vmPath = vmPath) ↔
    ∃ (mountTable : List Bytes) (calls : List (Σ c, SysCall.Answer c)), log = ⟨.mountTable, .ok mountTable⟩ :: calls ∧
      Resolves mountTable config.readOnly tokens calls devInfos disks

/-- One token is resolved, and is no block device that is mounted. -/
theorem yields_claimMember {mountTable : List Bytes} {readOnly : Bool} {token : List Char} {log : List (Σ c, SysCall.Answer c)}
    {devInfo : DevInfo} {disk : Desc} : (claimMember mountTable readOnly token).Yields log (devInfo, disk) ↔
      (resolveDiskToken token readOnly).Yields log (devInfo, disk) ∧ ¬(devInfo.isImage = false ∧ devInfo.path ∈ mountTable) := by
  unfold claimMember
  rw [Prog.yields_bind]
  constructor
  · rintro ⟨⟨devInfo', disk'⟩, before, after, rfl, hresolve, hrest⟩
    by_cases hmounted : devInfo'.isImage = false ∧ devInfo'.path ∈ mountTable
    · simp only [hmounted, and_self, if_true] at hrest
      obtain ⟨r, rest, rfl, hbail⟩ := hrest
      exact hbail.elim
    · simp only [hmounted, if_false] at hrest
      obtain ⟨rfl, heq⟩ := hrest
      cases heq
      rw [List.append_nil]
      exact ⟨hresolve, hmounted⟩
  · rintro ⟨hresolve, hmounted⟩
    refine ⟨(devInfo, disk), log, [], (List.append_nil log).symm, hresolve, ?_⟩
    simp only [hmounted, if_false]
    exact ⟨rfl, rfl⟩

/-- The loop over the tokens returns exactly what they resolve to. -/
theorem yields_claimLoop {mountTable : List Bytes} {readOnly : Bool} (tokens : List (List Char)) (start : List DevInfo)
    (opened : List Desc) (log : List (Σ c, SysCall.Answer c)) (result : List DevInfo × List Desc) :
    (claimLoop (claimMember mountTable readOnly) tokens start opened).Yields log result ↔
      ∃ devInfos disks, Resolves mountTable readOnly tokens log devInfos disks ∧ result = (start ++ devInfos, opened ++ disks) := by
  have hfails : ∀ (opened : List Desc) (e : Bytes) (log : List (Σ c, SysCall.Answer c)) (a : DevInfo × Desc),
      ¬(closeAll opened >>= fun _ => (bail e : Host (DevInfo × Desc))).Yields log a := by
    intro opened e log a h
    obtain ⟨_, _, _, _, _, hbail⟩ := Prog.yields_bind.1 h
    exact hbail
  induction tokens generalizing start opened log result with
  | nil =>
    constructor
    · rintro ⟨rfl, rfl⟩
      exact ⟨[], [], .nil, by rw [List.append_nil, List.append_nil]⟩
    · rintro ⟨devInfos, disks, hresolves, rfl⟩
      cases hresolves
      rw [List.append_nil, List.append_nil]
      exact ⟨rfl, rfl⟩
  | cons token tokens ih =>
    rw [claimLoop, Prog.yields_bind]
    constructor
    · rintro ⟨⟨devInfo, disk⟩, before, after, rfl, hfirst, hrest⟩
      obtain ⟨hresolve, hmounted⟩ := yields_claimMember.1 ((Prog.yields_handle (hfails opened)).1 hfirst)
      obtain ⟨devInfos, disks, hresolves, rfl⟩ := (ih _ _ _ _).1 hrest
      refine ⟨devInfo :: devInfos, disk :: disks, .cons hresolve hmounted hresolves, ?_⟩
      rw [List.append_assoc, List.append_assoc, List.singleton_append, List.singleton_append]
    · rintro ⟨_, _, hresolves, rfl⟩
      cases hresolves with
      | @cons _ _ before after devInfo devInfos disk disks hfirst hmounted hrest =>
        refine ⟨(devInfo, disk), before, after, rfl, ?_, ?_⟩
        · exact (Prog.yields_handle (hfails opened)).2 (yields_claimMember.2 ⟨hfirst, hmounted⟩)
        · refine (ih _ _ _ _).2 ⟨devInfos, disks, hrest, ?_⟩
          rw [List.append_assoc, List.append_assoc, List.singleton_append, List.singleton_append]

/-- A program that reads the table of mounts and then claims the tokens in the loop returns what they resolve to. -/
theorem claimsVolume_of_program {config : MountConfig} {tokens : List (List Char)} {vmPath : List Char}
    (finish : List DevInfo → List Desc → Claimed)
    (hfinish : ∀ devInfos disks, (finish devInfos disks).devInfos = devInfos ∧ (finish devInfos disks).disks = disks ∧
      (finish devInfos disks).mntDevInfo.vmPath = vmPath)
    (hprogram : claimDevices config = (do
      let mountTable ← orBail (← sys .mountTable)
      let (devInfos, disks) ← claimLoop (claimMember mountTable config.readOnly) tokens [] []
      pure (finish devInfos disks))) : ClaimsVolume config tokens vmPath := by
  refine ⟨⟨finish, hfinish, hprogram⟩, fun log devInfos disks => ?_⟩
  rw [hprogram]
  constructor
  · rintro ⟨claimed, ⟨answer, calls, rfl, hyields⟩, rfl, rfl, -⟩
    cases answer with
    | error text => exact hyields.elim
    | ok mountTable =>
      -- the rest of the program begins with the loop
      obtain ⟨claims, before, after, rfl, hloop, rfl, rfl⟩ := (Prog.yields_bind
        (p := claimLoop (claimMember mountTable config.readOnly) tokens [] [])).1 hyields
      obtain ⟨devInfos, disks, hresolves, rfl⟩ := (yields_claimLoop _ _ _ _ _).1 hloop
      rw [List.append_nil, (hfinish _ _).1, (hfinish _ _).2.1]
      exact ⟨mountTable, before, rfl, hresolves⟩
  · rintro ⟨mountTable, calls, rfl, hresolves⟩
    refine ⟨finish devInfos disks, ⟨.ok mountTable, calls, rfl, ?_⟩, hfinish devInfos disks⟩
    refine (Prog.yields_bind (p := claimLoop (claimMember mountTable config.readOnly) tokens [] [])).2
      ⟨(devInfos, disks), calls, [], (List.append_nil calls).symm, ?_, rfl, rfl⟩
    exact (yields_claimLoop _ _ _ _ _).2 ⟨devInfos, disks, hresolves, rfl⟩

/-- The identifier behind `lvm:` is the names and the devices with colons between them. -/
theorem lvm_append_text (devs : List (List Char)) (lvIdent : LvIdent) (hdevs : devs ≠ []) :
    "lvm:".toList ++ (VolumeIdent.lv devs lvIdent).text =
      [':'].intercalate ("lvm".toList :: lvIdent.vgName :: (devs ++ [lvIdent.lvName])) := by
  have happend : [':'].intercalate (devs ++ [lvIdent.lvName]) = [':'].intercalate devs ++ ':' :: lvIdent.lvName := by
    induction devs with
    | nil => exact absurd rfl hdevs
    | cons dev devs ih =>
      cases devs with
      | nil => simp
      | cons dev' devs =>
        rw [List.cons_append, List.intercalate_cons_of_ne_nil (by simp), ih (List.cons_ne_nil _ _),
          List.intercalate_cons_of_ne_nil (List.cons_ne_nil _ _)]
        simp
  rw [List.intercalate_cons_of_ne_nil (List.cons_ne_nil _ _), List.intercalate_cons_of_ne_nil (by simp), happend,
    VolumeIdent.text]
  simp

/-- The device with the driver that is asked for. -/
def mountedWith (config : MountConfig) (devInfo : DevInfo) : DevInfo :=
  match config.fsDriver with
  | some fsDriver => { devInfo with givenFsDriver := some fsDriver }
  | none => devInfo

/-- What is returned for the devices of a logical volume. -/
def lvmClaimed (config : MountConfig) (vmPath : List Char) (devInfos : List DevInfo) (disks : List Desc) : Claimed :=
  let mntDevInfo := mountedWith config (DevInfo.lv config.diskPath vmPath)
  let claimedConfig : MountConfig := { config with
    assembleRaid := config.assembleRaid || devInfos.any (fun d => d.fsType = some "linux_raid_member".toList) }
  ⟨honourMedia (chooseKernel claimedConfig mntDevInfo) mntDevInfo, devInfos, mntDevInfo, disks⟩

theorem vmPath_lvmClaimed (config : MountConfig) (vmPath : List Char) (devInfos : List DevInfo) (disks : List Desc) :
    (lvmClaimed config vmPath devInfos disks).mntDevInfo.vmPath = vmPath := by
  change (mountedWith config _).vmPath = _
  cases hdriver : config.fsDriver <;> simp [mountedWith, hdriver, DevInfo.lv]

/-- The printed identifier behind `lvm:` claims the volume. -/
theorem claimsVolume_lvm (config : MountConfig) {vgName lvName : List Char} {devs : List (List Char)} (hvg : ':' ∉ vgName)
    (hlv : ':' ∉ lvName) (hdevs : devs ≠ []) (hcolon : ∀ dev ∈ devs, ':' ∉ dev)
    (hpath : config.diskPath = "lvm:".toList ++ (VolumeIdent.lv devs ⟨vgName, lvName⟩).text) :
    ClaimsVolume config devs ("/dev/mapper/".toList ++ dmName vgName lvName) := by
  have hsplit : config.diskPath.splitOn ':' = "lvm".toList :: vgName :: (devs ++ [lvName]) := by
    rw [hpath, lvm_append_text devs ⟨vgName, lvName⟩ hdevs]
    refine List.splitOn_intercalate ':' (fun piece hpiece => ?_) (List.cons_ne_nil _ _)
    simp only [List.mem_cons, List.mem_append, List.not_mem_nil, or_false] at hpiece
    rcases hpiece with rfl | rfl | hdev | rfl
    · decide
    · exact hvg
    · exact hcolon piece hdev
    · exact hlv
  have hlong : ¬("lvm".toList :: vgName :: (devs ++ [lvName])).length < 4 := by
    have := List.length_pos_iff.2 hdevs
    simp only [List.length_cons, List.length_append, List.length_nil]
    omega
  have htokens : (("lvm".toList :: vgName :: (devs ++ [lvName])).drop 2).take
      (("lvm".toList :: vgName :: (devs ++ [lvName])).length - 3) = devs := by
    simp
  have hlast : ("lvm".toList :: vgName :: (devs ++ [lvName])).getD
      (("lvm".toList :: vgName :: (devs ++ [lvName])).length - 1) [] = lvName := by
    simp [List.getD]
  have hmapper : "/dev/mapper/".toList ++ escapeDashes vgName ++ "-".toList ++ escapeDashes lvName =
      "/dev/mapper/".toList ++ dmName vgName lvName := by
    rw [dmName]
    simp only [List.append_assoc]
  have hdisk : ∀ mountTable, claimDiskPath config mountTable =
      claimLoop (claimMember mountTable config.readOnly) devs [] [] >>= fun claimed => pure
        ⟨{ config with
            assembleRaid := config.assembleRaid || claimed.1.any (fun d => d.fsType = some "linux_raid_member".toList) },
          claimed.1, DevInfo.lv config.diskPath ("/dev/mapper/".toList ++ dmName vgName lvName), claimed.2⟩ := by
    intro mountTable
    unfold claimDiskPath
    simp only [hsplit]
    rw [if_pos (by simp [hpath]), if_neg hlong, htokens, hlast, ← hmapper]
    rfl
  refine claimsVolume_of_program (lvmClaimed config _) (fun devInfos disks => ⟨rfl, rfl, vmPath_lvmClaimed _ _ _ _⟩) ?_
  unfold claimDevices
  simp only [hdisk, Prog.bind_bind]
  rfl

/-- The row of a volume gives an identifier from which its device mapper's name and its devices are read back, and the list has
this row for the volume. -/
theorem claimsVolume_lvRow (config : MountConfig) {vgName lvName : List Char} {devs : List (List Char)}
    (hnames : ValidNames vgName lvName) (hvg : ':' ∉ vgName) (hlv : ':' ∉ lvName) (hdevs : devs ≠ [])
    (hcolon : ∀ dev ∈ devs, ':' ∉ dev) :
    LvIdent.fromStr (dmName vgName lvName) = .ok ⟨vgName, lvName⟩ ∧
      (∀ j child, child.name = dmName vgName lvName → ∃ row, lvRow j child devs = some row ∧
        row.ident.text = vgName ++ ":".toList ++ [':'].intercalate devs ++ ":".toList ++ lvName ∧
        ClaimsVolume { config with diskPath := "lvm:".toList ++ row.ident.text } devs
          ("/dev/mapper/".toList ++ child.name)) ∧
      ∀ (volMap : VolumeMap) entries, volMap.buildEntries = some entries → ∀ group entry, (group, entry) ∈ volMap.volGroups →
        ∀ child, (child, devs) ∈ entry.lvs → ∃ shown ∈ entries, shown.disk = vgHeadline group ∧
          ∃ j, ∃ row ∈ shown.partitions, lvRow j child devs = some row := by
  have hparsed := fromStr_dmName hnames
  refine ⟨hparsed, fun j child hchild => ?_, fun volMap entries hentries group entry hgroup child hmem =>
    exists_lvRow_of_buildEntries hentries hgroup hmem⟩
  obtain ⟨row, hrow, hident⟩ : ∃ row, lvRow j child devs = some row ∧ row.ident = .lv devs ⟨vgName, lvName⟩ := by
    unfold lvRow
    rw [hchild, hparsed]
    exact ⟨_, rfl, rfl⟩
  refine ⟨row, hrow, hident ▸ rfl, ?_⟩
  rw [hident, hchild]
  exact claimsVolume_lvm { config with diskPath := _ } hvg hlv hdevs hcolon rfl

/-- A volume with a hyphen in both names, on two devices. -/
theorem claimsVolume_lvRow_hyphens :
    LvIdent.fromStr (dmName "vg-1".toList "lv--2".toList) = .ok ⟨"vg-1".toList, "lv--2".toList⟩ ∧
      ∃ row, lvRow 0 { name := dmName "vg-1".toList "lv--2".toList } ["disk4s1".toList, "disk5".toList] = some row ∧
        row.ident.text = "vg-1:disk4s1:disk5:lv--2".toList ∧
        ClaimsVolume { diskPath := "lvm:".toList ++ row.ident.text, common := { homeDir := [], profilePath := [] } }
          ["disk4s1".toList, "disk5".toList] ("/dev/mapper/".toList ++ dmName "vg-1".toList "lv--2".toList) := by
  have h := @claimsVolume_lvRow { common := { homeDir := [], profilePath := [] } } "vg-1".toList "lv--2".toList
    ["disk4s1".toList, "disk5".toList] ⟨by decide, by decide, by decide⟩ (by decide) (by decide) (by decide) (by decide)
  obtain ⟨row, hrow, htext, hclaims⟩ := h.2.1 0 { name := dmName "vg-1".toList "lv--2".toList } rfl
  exact ⟨h.1, row, hrow, htext, hclaims⟩

end Anylinuxfs
