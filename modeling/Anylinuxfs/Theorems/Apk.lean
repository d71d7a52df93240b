import Anylinuxfs.Apk
import Anylinuxfs.Lemmas.Utf8

/-!
# The three views of the custom packages

Rust shows the union of two files, edits one of them and copies the union into it when packages are added; the program in Go
reads that one file, with a library of its own.
-/

namespace Anylinuxfs

open Transition

variable {φ : Type} [ConfigToml φ]

/-! ## Packages -/

theorem mem_alpineCustomPackages {globalPrefs userPrefs : AlpineConfig} {pkg : List Char} :
    pkg ∈ alpineCustomPackages globalPrefs userPrefs ↔ pkg ∈ globalPrefs.customPackages ∨ pkg ∈ userPrefs.customPackages := by
  rw [alpineCustomPackages, mem_foldl_setInsert_iff, List.mem_append]
  simp

/-- The names in `default-alpine-packages.txt`. -/
def defaultPackageNames : List (List Char) :=
  ["bash".toList, "blkid".toList, "btrfs-progs".toList, "cryptsetup".toList, "lsblk".toList, "lvm2".toList, "mdadm".toList,
    "mount".toList, "nfs-utils".toList, "ntfs-3g".toList, "ntfs-3g-progs".toList, "squashfs-tools".toList, "zfs".toList]

theorem getDefaultPackages_eq : getDefaultPackages = defaultPackageNames := by
  have htext : InitRootfs.defaultPackagesData = _ := String.toList_ofList
  have hnames : getDefaultPackages.map String.ofList = ["bash", "blkid", "btrfs-progs", "cryptsetup", "lsblk", "lvm2", "mdadm",
      "mount", "nfs-utils", "ntfs-3g", "ntfs-3g-progs", "squashfs-tools", "zfs"] := by
    rw [getDefaultPackages, htext]
    rfl
  exact eq_map_toList hnames

/-- Both programs read the same default packages. -/
theorem initRootfs_getDefaultPackages_eq : InitRootfs.getDefaultPackages = getDefaultPackages := by
  have htext : InitRootfs.defaultPackagesData = _ := String.toList_ofList
  rw [InitRootfs.getDefaultPackages, getDefaultPackages, htext]
  rfl

/-- The bytes of names mean themselves for the shell. -/
theorem inert_of_packageByte {c : UInt8} (h : packageByte c = true) : Shell.inert c = true := by
  have hall : ∀ n < 256, packageByte (UInt8.ofNat n) = true → Shell.inert (UInt8.ofNat n) = true := by decide +kernel
  have hc : UInt8.ofNat c.toNat = c := UInt8.ofNat_toNat
  rw [← hc] at h ⊢
  exact hall c.toNat c.toNat_lt h

/-- The name of a package is a word of a shell command. -/
theorem plain_of_isPackageName {w : Bytes} (h : isPackageName w = true) : Shell.Plain w := by
  simp only [isPackageName, Bool.and_eq_true] at h
  refine ⟨?_, fun c hc => inert_of_packageByte (List.all_eq_true.1 h.1.2 c hc)⟩
  rintro rfl
  cases h.1.1

/-- A literal is checked as the list of its characters. -/
theorem plainName_ofList {l : List Char} (h : isPackageName (utf8 l) = true) : PlainName (String.ofList l).toList := by
  rw [String.toList_ofList]
  exact h

theorem plain_ofList {l : List Char} (hne : l ≠ []) (h : (utf8 l).all Shell.inert = true) :
    Shell.Plain (utf8 (String.ofList l).toList) := by
  rw [String.toList_ofList]
  exact ⟨fun hnil => hne (utf8_eq_nil hnil), List.all_eq_true.1 h⟩

theorem plainName_of_default {pkg : List Char} (h : pkg ∈ getDefaultPackages) : PlainName pkg := by
  have hall : ∀ pkg ∈ defaultPackageNames, PlainName pkg := by
    simp only [defaultPackageNames, List.forall_mem_cons]
    refine ⟨?_, ?_, ?_, ?_, ?_, ?_, ?_, ?_, ?_, ?_, ?_, ?_, ?_, nofun⟩ <;> exact plainName_ofList rfl
  exact hall pkg (getDefaultPackages_eq ▸ h)

/-! ## The script -/

/-- The words before the packages. -/
def apkAddWords : List (List Char) := ["apk".toList, "--update".toList, "--no-cache".toList, "add".toList]

theorem apkAddLine_eq {allPackages : List (List Char)} (h : allPackages ≠ []) :
    InitRootfs.apkAddLine allPackages = [' '].intercalate (apkAddWords ++ allPackages) := by
  cases allPackages with
  | nil => exact absurd rfl h
  | cons pkg rest =>
    simp only [apkAddWords, List.cons_append, List.nil_append, List.intercalate_cons_cons]
    rfl

theorem plain_of_apkAddWords {w : List Char} (h : w ∈ apkAddWords) : Shell.Plain (utf8 w) := by
  have hall : ∀ w ∈ apkAddWords, Shell.Plain (utf8 w) := by
    simp only [apkAddWords, List.forall_mem_cons]
    refine ⟨?_, ?_, ?_, ?_, nofun⟩ <;> exact plain_ofList nofun rfl
  exact hall w h

/-- The shell and `apk` read the packages of the script as they are given, when each of them is a name. -/
theorem installedPackages_eq {s : ApkState φ} (h : ∀ pkg ∈ s.loadCustomPackages, PlainName pkg) :
    s.installedPackages = some ((getDefaultPackages ++ s.loadCustomPackages).map utf8) := by
  have hne : getDefaultPackages ++ s.loadCustomPackages ≠ [] := by
    rw [getDefaultPackages_eq]
    exact List.append_ne_nil_of_left_ne_nil (List.cons_ne_nil _ _) _
  have hnames : ∀ w ∈ (getDefaultPackages ++ s.loadCustomPackages).map utf8, isPackageName w = true := by
    intro w hw
    obtain ⟨pkg, hpkg, rfl⟩ := List.mem_map.1 hw
    rcases List.mem_append.1 hpkg with hpkg | hpkg
    · exact plainName_of_default hpkg
    · exact h pkg hpkg
  have hplain : ∀ w ∈ (apkAddWords ++ (getDefaultPackages ++ s.loadCustomPackages)).map utf8, Shell.Plain w := by
    intro w hw
    rw [List.map_append] at hw
    rcases List.mem_append.1 hw with hw | hw
    · obtain ⟨word, hword, rfl⟩ := List.mem_map.1 hw
      exact plain_of_apkAddWords hword
    · exact plain_of_isPackageName (hnames w hw)
  have hwords : (Shell.words (utf8 (InitRootfs.apkAddLine (InitRootfs.getDefaultPackages ++ s.loadCustomPackages)))).map (List.drop 4) =
      some ((getDefaultPackages ++ s.loadCustomPackages).map utf8) := by
    rw [initRootfs_getDefaultPackages_eq, apkAddLine_eq hne, utf8_intercalate]
    change (Shell.words ([Shell.Byte.space].intercalate _)).map _ = _
    rw [apkAddWords, List.cons_append, List.map_cons] at hplain ⊢
    rw [Shell.words_intercalate hplain]
    simp only [Option.map_some, List.cons_append, List.nil_append, List.map_cons, List.drop_succ_cons, List.drop_zero]
  rw [ApkState.installedPackages, hwords, Option.filter_some, if_pos (List.all_eq_true.2 hnames)]

/-! ## Steps -/

/-- The state when packages have been saved. -/
def ApkState.saved (s : ApkState φ) (customPackages : List (List Char)) : ApkState φ :=
  { s with userFile := some (ConfigToml.save { customPackages } s.userFile) }

/-- What was saved is read back, by both programs. -/
theorem ApkState.userPrefs_saved (hlaw : ConfigToml.Lawful φ) (s : ApkState φ) (customPackages : List (List Char)) :
    (s.saved customPackages).userPrefs = some { customPackages } :=
  hlaw.alpine_save _ _

theorem ApkState.loadCustomPackages_saved (hlaw : ConfigToml.Lawful φ) (s : ApkState φ) (customPackages : List (List Char)) :
    (s.saved customPackages).loadCustomPackages = customPackages :=
  congrArg (Option.getD · []) (hlaw.decodeFile_save _ _)

/-- Saved names are names in the state they leave. -/
theorem ApkState.PlainNames.saved (hlaw : ConfigToml.Lawful φ) {s : ApkState φ} (h : s.PlainNames) {customPackages : List (List Char)}
    (hnames : ∀ pkg ∈ customPackages, PlainName pkg) : (s.saved customPackages).PlainNames := by
  refine ⟨h.global, ?_, ?_⟩ <;> rw [s.userPrefs_saved hlaw]
  · rintro _ ⟨⟩
    exact hnames
  · rintro _ ⟨⟩
    exact s.loadCustomPackages_saved hlaw customPackages

/-- What a command that is run in the VM leaves. -/
theorem runInVm_cases (s : ApkState φ) (userPrefs : AlpineConfig) (out : ApkOutcome φ) :
    (Apk.runInVm s userPrefs out = (.ok [], { s with userFile := some (ConfigToml.save userPrefs s.userFile) })) ∨
    (∃ left, out.save = .failed left ∧ Apk.runInVm s userPrefs out = (.err, { s with userFile := left })) ∨
    Apk.runInVm s userPrefs out = (.err, s) := by
  unfold Apk.runInVm
  split
  · split
    · exact .inl rfl
    · next left hleft => exact .inr (.inl ⟨left, hleft, rfl⟩)
  · exact .inr (.inr rfl)

/-- What a command leaves in the user's file: what was there, what a failed saving leaves, the union with new packages, or what is
left without the deleted ones. -/
theorem runApk_cases (s : ApkState φ) (cmd : ApkCmd) (out : ApkOutcome φ) :
    (∃ r, Apk.runApk s cmd out = (r, s) ∧ ∀ packages printed, cmd = .del packages → r = .ok printed →
      packages.filter (fun pkg => pkg ∉ getDefaultPackages) = []) ∨
    (∃ left, out.save = .failed left ∧ Apk.runApk s cmd out = (.err, { s with userFile := left })) ∨
    (∃ packages userPrefs, cmd = .add packages ∧ s.userPrefs = some userPrefs ∧
      Apk.runApk s cmd out = (.ok [], s.saved ((packages.filter (fun pkg => pkg ∉ getDefaultPackages)).foldl
        (fun set pkg => setInsert pkg set) (alpineCustomPackages s.globalPrefs userPrefs)))) ∨
    (∃ packages userPrefs, cmd = .del packages ∧ s.userPrefs = some userPrefs ∧
      Apk.runApk s cmd out = (.ok [], s.saved (userPrefs.customPackages.filter
        (fun pkg => pkg ∉ packages.filter (fun pkg => pkg ∉ getDefaultPackages))))) := by
  unfold Apk.runApk
  cases huser : s.userPrefs with
  | none => exact .inl ⟨.err, rfl, nofun⟩
  | some userPrefs =>
    by_cases hinit : out.initOk = true
    · simp only [if_pos hinit]
      cases cmd with
      | info => exact .inl ⟨_, rfl, nofun⟩
      | add packages =>
        simp only
        split
        · exact .inl ⟨_, rfl, nofun⟩
        · rcases runInVm_cases s _ out with h | ⟨left, hleft, h⟩ | h
          · exact .inr (.inr (.inl ⟨packages, userPrefs, rfl, rfl, h⟩))
          · exact .inr (.inl ⟨left, hleft, h⟩)
          · exact .inl ⟨.err, h, nofun⟩
      | del packages =>
        simp only
        split
        · next hnone =>
          refine .inl ⟨_, rfl, fun packages' printed hcmd _ => ?_⟩
          cases hcmd
          exact hnone
        · rcases runInVm_cases s _ out with h | ⟨left, hleft, h⟩ | h
          · exact .inr (.inr (.inr ⟨packages, userPrefs, rfl, rfl, h⟩))
          · exact .inr (.inl ⟨left, hleft, h⟩)
          · exact .inl ⟨.err, h, nofun⟩
    · simp only [if_neg hinit]
      exact .inl ⟨.err, rfl, nofun⟩

/-- The names stay names. -/
theorem plainNames_step (hlaw : ConfigToml.Lawful φ) {s s' : ApkState φ} {step : ApkStep φ} (h : s.PlainNames) (hfits : step.Fits s)
    (hs : s.step step = some s') : s'.PlainNames := by
  cases step with
  | reinit =>
    obtain ⟨-, heq⟩ := Option.ite_none_right_eq_some.1 hs
    cases heq
    exact h
  | apk cmd out =>
    obtain rfl := Option.some.inj hs
    rcases runApk_cases s cmd out with ⟨r, heq, -⟩ | ⟨left, hleft, heq⟩ | ⟨packages, userPrefs, rfl, huser, heq⟩ |
      ⟨packages, userPrefs, rfl, huser, heq⟩ <;> rw [heq]
    · exact h
    · rw [hfits.2 left hleft]
      exact h
    · refine h.saved hlaw fun pkg hpkg => ?_
      rcases mem_foldl_setInsert_iff.1 hpkg with hpkg | hpkg
      · exact hfits.1 pkg (List.mem_of_mem_filter hpkg)
      · rcases mem_alpineCustomPackages.1 hpkg with hpkg | hpkg
        · exact h.global pkg hpkg
        · exact h.user userPrefs huser pkg hpkg
    · exact h.saved hlaw fun pkg hpkg => h.user userPrefs huser pkg (List.mem_of_mem_filter hpkg)

/-- The packages that a reinitialisation installs, when the global file adds none to them. -/
theorem mem_installedPackages {s : ApkState φ} {userPrefs : AlpineConfig} (hload : s.loadCustomPackages = userPrefs.customPackages)
    (hfits : ApkStep.Fits s .reinit) {name : Bytes} :
    name ∈ (getDefaultPackages ++ s.loadCustomPackages).map utf8 ↔
      ∃ pkg, (pkg ∈ getDefaultPackages ∨ pkg ∈ alpineCustomPackages s.globalPrefs userPrefs) ∧ name = utf8 pkg := by
  have hiff : ∀ pkg, pkg ∈ getDefaultPackages ++ s.loadCustomPackages ↔
      pkg ∈ getDefaultPackages ∨ pkg ∈ alpineCustomPackages s.globalPrefs userPrefs := by
    intro pkg
    rw [List.mem_append, mem_alpineCustomPackages, ← hload]
    constructor
    · exact Or.imp_right .inr
    · rintro (hpkg | hpkg | hpkg)
      · exact .inl hpkg
      · exact hfits pkg hpkg
      · exact .inr hpkg
  rw [List.mem_map]
  exact exists_congr fun pkg => by rw [hiff, eq_comm]

/-- The law of one step. -/
theorem apkLaw_step (hlaw : ConfigToml.Lawful φ) {s s' : ApkState φ} {step : ApkStep φ} (h : s.PlainNames) (hfits : step.Fits s)
    (hs : s.step step = some s') : ApkLaw s step s' where
  deleted := by
    rintro packages out printed rfl hok pkg hpkg hdefault shown hshown hmem
    obtain rfl := Option.some.inj hs
    have hin : pkg ∈ packages.filter (fun pkg => pkg ∉ getDefaultPackages) := by simp [hpkg, hdefault]
    rcases runApk_cases s (.del packages) out with ⟨r, heq, hnone⟩ | ⟨left, hleft, heq⟩ | ⟨_, _, hcmd, -⟩ |
      ⟨packages', userPrefs, hcmd, huser, heq⟩
    · rw [heq] at hok
      rw [hnone packages printed rfl hok] at hin
      cases hin
    · rw [heq] at hok
      cases hok
    · cases hcmd
    · cases hcmd
      rw [heq, ApkState.info, s.userPrefs_saved hlaw] at hshown
      obtain rfl := Option.some.inj hshown
      rcases mem_alpineCustomPackages.1 hmem with hmem | hmem
      · exact hfits.1 pkg hpkg hdefault hmem
      · exact of_decide_eq_true (List.mem_filter.1 hmem).2 hin
  failed := by
    rintro cmd out rfl herr
    obtain rfl := Option.some.inj hs
    rcases runApk_cases s cmd out with ⟨r, heq, -⟩ | ⟨left, hleft, heq⟩ | ⟨_, _, _, _, heq⟩ | ⟨_, _, _, _, heq⟩
    · rw [heq]
    · rw [heq, hfits.2 left hleft]
    · rw [heq] at herr
      cases herr
    · rw [heq] at herr
      cases herr
  reinit := by
    rintro rfl shown hshown
    obtain ⟨userPrefs, huser, rfl⟩ := Option.map_eq_some_iff.1 hshown
    have hload : s.loadCustomPackages = userPrefs.customPackages := h.alike userPrefs huser
    refine ⟨_, installedPackages_eq ?_, fun name => mem_installedPackages hload hfits⟩
    rw [hload]
    exact h.user userPrefs huser

/-- In every run in which no package of the global file is deleted, all of them are in the user's file when the root filesystem is
made, and no saving leaves the user's file half written, the three views agree about every step. -/
theorem apkLaw_of_fits (hlaw : ConfigToml.Lawful φ) {s₀ s s' : ApkState φ} {step : ApkStep φ} (h₀ : s₀.PlainNames)
    (h : Reach ApkState.step ApkStep.Fits s₀ s) (hfits : step.Fits s) (hs : s.step step = some s') : ApkLaw s step s' := by
  have hplain : s.PlainNames := h.invariant ApkState.PlainNames h₀ fun _ _ _ hs hfits hstep => plainNames_step hlaw hs hfits hstep
  exact apkLaw_step hlaw hplain hfits hs

/-- Files that hold nothing but the section, which both libraries read. -/
instance : ConfigToml AlpineConfig where
  alpine := some
  decodeFile config := some config.customPackages
  save config _ := config

/-- A package of the user's own is added, and then another one is deleted. -/
theorem apkLaw_ownPackages :
    ∃ s', ApkState.step (φ := AlpineConfig) ⟨⟨[]⟩, some ⟨["fuse".toList, "vim".toList]⟩⟩
        (.apk (.del ["vim".toList]) ⟨true, some 0, .done⟩) = some s' ∧
      ApkLaw ⟨⟨[]⟩, some ⟨["fuse".toList, "vim".toList]⟩⟩ (.apk (.del ["vim".toList]) ⟨true, some 0, .done⟩) s' := by
  have hlaw : ConfigToml.Lawful AlpineConfig := ⟨fun _ _ => rfl, fun _ _ => rfl⟩
  have hplain : (⟨⟨[]⟩, some ⟨["vim".toList]⟩⟩ : ApkState AlpineConfig).PlainNames := by
    refine ⟨nofun, ?_, ?_⟩
    · rintro _ ⟨⟩ pkg hpkg
      rw [List.mem_singleton.1 hpkg]
      exact plainName_ofList rfl
    · rintro _ ⟨⟩
      rfl
  have hadd : ApkStep.Fits (φ := AlpineConfig) ⟨⟨[]⟩, some ⟨["vim".toList]⟩⟩ (.apk (.add ["fuse".toList]) ⟨true, some 0, .done⟩) := by
    refine ⟨fun pkg hpkg => ?_, nofun⟩
    rw [List.mem_singleton.1 hpkg]
    exact plainName_ofList rfl
  have hstep : ApkState.step (φ := AlpineConfig) ⟨⟨[]⟩, some ⟨["vim".toList]⟩⟩
      (.apk (.add ["fuse".toList]) ⟨true, some 0, .done⟩) = some ⟨⟨[]⟩, some ⟨["fuse".toList, "vim".toList]⟩⟩ := by
    simp only [ApkState.step, Apk.runApk, getDefaultPackages_eq]
    rfl
  exact ⟨_, rfl, apkLaw_of_fits hlaw hplain (Reach.step _ .init hadd hstep) ⟨fun _ _ _ => List.not_mem_nil, nofun⟩ rfl⟩

/-- A package of the global file stays after it was deleted. -/
theorem apkLaw_false : ¬∀ (s₀ s : ApkState AlpineConfig) step s', Reach ApkState.step Any s₀ s → s.step step = some s' →
    ApkLaw s step s' := by
  intro h
  have hlaw := h ⟨⟨["vim".toList]⟩, some ⟨[]⟩⟩ _ (.apk (.del ["vim".toList]) ⟨true, some 0, .done⟩) _ .init rfl
  have hrun : Apk.runApk (φ := AlpineConfig) ⟨⟨["vim".toList]⟩, some ⟨[]⟩⟩ (.del ["vim".toList]) ⟨true, some 0, .done⟩ =
      (.ok [], ⟨⟨["vim".toList]⟩, some ⟨[]⟩⟩) := by
    simp only [Apk.runApk, ApkState.userPrefs, getDefaultPackages_eq]
    rfl
  have hdefault : "vim".toList ∉ getDefaultPackages := by
    rw [getDefaultPackages_eq]
    decide
  refine hlaw.deleted ["vim".toList] ⟨true, some 0, .done⟩ [] rfl (by rw [hrun]) "vim".toList List.mem_cons_self hdefault
    ["vim".toList] ?_ List.mem_cons_self
  rw [hrun]
  decide

end Anylinuxfs
