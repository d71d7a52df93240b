import Anylinuxfs.Lemmas.DirTrie
import Anylinuxfs.Lemmas.NfsShare

/-!
# What the shell makes of the mount scripts

The share and the mount point stand between double quotes in the scripts and nothing in them is escaped, so a shell reads them
back unchanged exactly when every byte of them means itself there (`scriptsIntact_iff`). A volume label is free text:
`scriptsIntact_false` is a label that the shell would run as a command.
-/

namespace Anylinuxfs

open Shell

/-- The script of the share and the scripts of all its mounted subdirectories are read as the simple commands they are meant to
be: `taken` names of mount points exist already, `mountPoint` is where the share was then found mounted. -/
def ScriptsIntact (os : HostOs) (setup : NfsShareSetup) (taken : Nat) (exports : List (List Char)) (mountPoint : Bytes) : Prop :=
  Intact setup.nfsOpts.toList setup.vmHost setup.sharePath (setup.mountPoint os taken) ∧
    ∀ e ∈ setup.subdirMounts exports mountPoint, Intact setup.nfsOpts.toList setup.vmHost e.1 e.2

/-- Everything that is spliced into the scripts means itself between double quotes. The name of a created mount point is part of
the share, but a number that is appended to it makes an expansion of a dollar sign at its end. -/
structure SplicesLiteral (os : HostOs) (setup : NfsShareSetup) (taken : Nat) (exports : List (List Char)) (mountPoint : Bytes) :
    Prop where
  share : Literal (remote setup.vmHost setup.sharePath)
  custom : ∀ given, setup.config.customMountPoint = some given → Literal given
  created : setup.config.customMountPoint = none → Literal (volumeBaseDir os setup.config) ∧
    (taken ≠ 0 → (mountName setup.sharePath).getLast? ≠ some Byte.dollar)
  subdirs : ∀ subdir, Mounted setup.sharePath ((exports.map utf8).filter (· ≠ setup.sharePath)) subdir →
    Literal (remote setup.vmHost subdir) ∧ Literal (pathJoin mountPoint (subdirRelative setup.sharePath subdir))

/-- The mount point of the share means itself exactly when the one that was given, or the parts of the created one, do. -/
theorem literal_shareMountPoint_iff (os : HostOs) {setup : NfsShareSetup}
    (hremote : Literal (remote setup.vmHost setup.sharePath)) (taken : Nat) :
    Literal (setup.mountPoint os taken) ↔ (∀ given, setup.config.customMountPoint = some given → Literal given) ∧
      (setup.config.customMountPoint = none → Literal (volumeBaseDir os setup.config) ∧
        (taken ≠ 0 → (mountName setup.sharePath).getLast? ≠ some Byte.dollar)) := by
  cases hcustom : setup.config.customMountPoint with
  | some given =>
    simp only [NfsShareSetup.mountPoint, hcustom, Option.some.injEq, reduceCtorEq, false_implies, and_true]
    exact ⟨fun h given' heq => heq ▸ h, fun h => h given rfl⟩
  | none =>
    rw [literal_mountPoint_iff os hcustom hremote]
    exact ⟨fun h => ⟨fun _ heq => (by cases heq), fun _ => h⟩, fun h => h.2 rfl⟩

/-- Whatever the label, the image's name, the overriding export, the exported subdirectories and the mount point are, the scripts
are read as they are meant exactly when everything that is spliced into them means itself between double quotes. -/
theorem scriptsIntact_iff (os : HostOs) (config : MountConfig) (vmHost : Bytes) (dev : DevInfo) (sharedVolume : Bool)
    (taken : Nat) (exports : List (List Char)) (mountPoint : Bytes)
    (hopts : ∀ s ∈ config.nfsOptions, ∀ c ∈ utf8 s, inert c = true) :
    ScriptsIntact os (NfsShareSetup.new os config vmHost dev sharedVolume) taken exports mountPoint ↔
      SplicesLiteral os (NfsShareSetup.new os config vmHost dev sharedVolume) taken exports mountPoint := by
  have hword := (inertOptions_new os hopts vmHost dev sharedVolume).plain
  generalize NfsShareSetup.new os config vmHost dev sharedVolume = setup at hword ⊢
  have hsubdirs : (∀ e ∈ setup.subdirMounts exports mountPoint, Intact setup.nfsOpts.toList setup.vmHost e.1 e.2) ↔
      ∀ subdir, Mounted setup.sharePath ((exports.map utf8).filter (· ≠ setup.sharePath)) subdir →
        Literal (remote setup.vmHost subdir) ∧ Literal (pathJoin mountPoint (subdirRelative setup.sharePath subdir)) := by
    simp only [Prod.forall, mem_subdirMounts, intact_iff hword]
    exact ⟨fun h subdir hm => h subdir _ ⟨hm, rfl⟩, fun h share target hm => hm.2 ▸ h share hm.1⟩
  unfold ScriptsIntact
  rw [intact_iff hword, hsubdirs]
  constructor
  · rintro ⟨⟨hshare, hpoint⟩, hsub⟩
    obtain ⟨hcustom, hcreated⟩ := (literal_shareMountPoint_iff os hshare taken).1 hpoint
    exact ⟨hshare, hcustom, hcreated, hsub⟩
  · rintro ⟨hshare, hcustom, hcreated, hsub⟩
    exact ⟨⟨hshare, (literal_shareMountPoint_iff os hshare taken).2 ⟨hcustom, hcreated⟩⟩, hsub⟩

/-- A device without a label, with one exported subdirectory. -/
theorem scriptsIntact_unlabelled :
    ScriptsIntact .macos (NfsShareSetup.new .macos
      { nfsOptions := ["vers=4".toList], common := { homeDir := bytes "/Users/me", profilePath := bytes "/Users/me/.anylinuxfs" } }
      (bytes "alfs.local") { path := bytes "/dev/disk4s1", rpath := bytes "/dev/rdisk4s1" } false) 1
      ["/mnt/disk4s1".toList, "/mnt/disk4s1/a b".toList] (bytes "/Users/me/Volumes/disk4s1-1") := by
  have hopts : ∀ s ∈ ["vers=4".toList], ∀ c ∈ utf8 s, inert c = true := by
    intro s hs
    rw [List.mem_singleton.1 hs]
    exact List.all_eq_true.1 (by decide)
  refine (scriptsIntact_iff .macos _ _ _ _ 1 _ _ hopts).2 ⟨by decide, ?_, fun _ => by decide +kernel, ?_⟩
  · exact fun _ h => nomatch h
  · rintro subdir ⟨earlier, later, heq, _⟩
    have hmem : subdir ∈ earlier ++ subdir :: later := List.mem_append_right _ List.mem_cons_self
    have hone : subdir = bytes "/mnt/disk4s1/a b" := by
      rw [← heq] at hmem
      exact List.mem_singleton.1 hmem
    rw [hone]
    decide

/-- The label `$(id)` makes a command substitution of the share, so the script is not the simple command it is meant to be. -/
theorem scriptsIntact_false :
    ¬ScriptsIntact .macos (NfsShareSetup.new .macos
      { common := { homeDir := bytes "/Users/me", profilePath := bytes "/Users/me/.anylinuxfs" } } (bytes "alfs.local")
      { path := bytes "/dev/disk4s1", rpath := bytes "/dev/rdisk4s1", label := some "$(id)".toList } false)
      0 [] (bytes "/Users/me/Volumes/$(id)") := by
  rintro ⟨h, _⟩
  have hnone : words (mountScript (NfsOptions.default .macos).toList (bytes "alfs.local") (bytes "/mnt/$(id)")
      (bytes "/Users/me/Volumes/$(id)")) = none := by decide
  have hsome : some _ = none := h.symm.trans hnone
  cases hsome

end Anylinuxfs
