import Anylinuxfs.DeviceSys

/-!
# What a process may do with its files

`deviceRules` says when a call is harmless: a lock is taken and a file is closed only while no disk is attached, and a disk is
attached only if it is a root disk or its file is claimed, and if the process has a claimed file open, locked exclusively for a disk
that is writable.
Every command keeps to these rules whatever it is answered (`wp_program`). That `claim_devices` locks by the value of
`read_only` at the start and the disks are attached by the value at the end does no harm, because the value only ever changes
to read-only (`wp_claimDevices`).
-/

namespace Anylinuxfs

open Interact (Prog Rules)

namespace DeviceSys

variable {φ : Type} {node : Bytes → φ} {root : φ → Prop} {files : Files φ} {α : Type}

/-! ## The rules -/

/-- If the file of the disk is claimed, the process has it open, locked exclusively for a writable disk. -/
def Files.Backs (files : Files φ) (a : Attachment φ) : Prop :=
  a.file ∈ files.claimed → ∃ fd ∈ files.fds, fd.file = a.file ∧ (a.readOnly = false → fd.kind = .exclusive)

/-- The file is claimed, or it is a root disk. -/
def Files.Covers (root : φ → Prop) (files : Files φ) (file : φ) : Prop := file ∈ files.claimed ∨ root file

/-- Every disk of the process is backed, and is a root disk or claimed. -/
def Files.Backed (root : φ → Prop) (files : Files φ) : Prop := ∀ a ∈ files.attached, files.Backs a ∧ files.Covers root a.file

/-- When a call is harmless, and what it does to the files of the process; `root` says which files are root disks. -/
def deviceRules (node : Bytes → φ) (root : φ → Prop) : Rules SysCall SysCall.Answer (Files φ) where
  allowed files c :=
    match c with
    | .openLocked _ _ | .close _ => files.attached = []
    | .krunAddDisk path _ readOnly => files.Backs ⟨node path, readOnly⟩ ∧ files.Covers root (node path)
    | _ => True
  after := Files.after node

/-- With no disk attached, nothing has to be backed. -/
theorem Files.backed_of_unattached (h : files.attached = []) : files.Backed root := by
  intro a ha
  rw [h] at ha
  cases ha

/-- A call that keeps to the rules leaves every disk backed. -/
theorem Files.Backed.after (h : files.Backed root) {c : SysCall} (hc : (deviceRules node root).allowed files c) (r : c.Answer) :
    (files.after node c r).Backed root := by
  cases c with
  | openLocked path kind =>
    cases r with
    | granted disk => exact Files.backed_of_unattached hc
    | notOpened => exact h
    | refused => exact h
  | close disk => exact Files.backed_of_unattached hc
  | krunAddDisk path format readOnly =>
    cases r with
    | false => exact h
    | true =>
      intro a ha
      rcases List.mem_cons.1 ha with rfl | ha
      · exact hc
      · exact h a ha
  | dropCtx => exact Files.backed_of_unattached rfl
  | mountTable => exact h
  | «exists» path => exact h
  | isFile path => exact h
  | unmountFs path => exact h
  | blkidProbe path => exact h
  | blkidPartitions path => exact h
  | mediaWritable path => exact h
  | fork => exact h
  | stage what => exact h

/-! ## Calls that leave the files alone -/

/-- A call that has nothing to do with the files of the process. -/
def Quiet : SysCall → Bool
  | .openLocked _ _ | .close _ | .krunAddDisk _ _ _ | .dropCtx => false
  | _ => true

theorem keeps_sys {c : SysCall} (hc : Quiet c = true) : (sys c).Keeps (deviceRules node root) files := by
  cases c <;> first | exact ⟨trivial, fun _ => rfl⟩ | cases hc

theorem keeps_pure (a : α) : (pure a : Host α).Keeps (deviceRules node root) files := rfl

theorem keeps_bail (text : Bytes) : (bail text : Host α).Keeps (deviceRules node root) files := rfl

theorem keeps_orBail (r : Except Bytes α) : (orBail r).Keeps (deviceRules node root) files := by
  cases r <;> rfl

theorem keeps_attempt (what : Stage) : (attempt what).Keeps (deviceRules node root) files :=
  (keeps_sys rfl).bind keeps_orBail

theorem keeps_pv (path : Bytes) (isImage : Bool) : (DevInfo.pv path isImage).Keeps (deviceRules node root) files := by
  unfold DevInfo.pv
  by_cases hpath : path = []
  · simp only [hpath, if_true]
    exact keeps_bail _
  · simp only [hpath, if_false]
    refine (keeps_sys rfl).bind fun probe => ?_
    cases probe with
    | none => exact keeps_bail _
    | some probe => exact (keeps_sys rfl).bind fun _ => keeps_pure _

theorem keeps_unprobedImage (path : Bytes) (partNum : Option Nat) :
    (DevInfo.unprobedImage path partNum).Keeps (deviceRules node root) files := by
  unfold DevInfo.unprobedImage
  by_cases hpath : path = []
  · simp only [hpath, if_true]
    exact keeps_bail _
  · simp only [hpath, if_false]
    by_cases hpart : partNum = some 0
    · simp only [hpart, if_true]
      exact keeps_bail _
    · simp only [hpart, if_false]
      exact keeps_pure _

theorem keeps_probeImage (path : Bytes) : (DevInfo.probeImage path).Keeps (deviceRules node root) files := by
  unfold DevInfo.probeImage
  by_cases hpath : path = []
  · simp only [hpath, if_true]
    exact keeps_bail _
  · simp only [hpath, if_false]
    refine (keeps_sys rfl).bind fun whole => ?_
    cases whole with
    | none => exact keeps_bail _
    | some whole =>
      refine (keeps_sys rfl).bind fun parts => ?_
      cases parts with
      | none => exact keeps_bail _
      | some parts => exact keeps_pure _

/-! ## Claims -/

/-- Every claimed file is open, and locked exclusively unless the claim is read-only; the files of these devices are claimed. -/
structure Files.Claims (node : Bytes → φ) (files : Files φ) (readOnly : Bool) (devs : List DevInfo) : Prop where
  locked : ∀ file ∈ files.claimed, ∃ fd ∈ files.fds, fd.file = file ∧ (readOnly = false → fd.kind = .exclusive)
  claimed : ∀ di ∈ devs, node di.rpath ∈ files.claimed

/-- No disk is attached yet. -/
def Files.Unattached (files : Files φ) : Prop := files.attached = []

variable {readOnly : Bool} {devs : List DevInfo}

/-- Claims that are good for a writable disk are good for any disk. -/
theorem Files.Claims.mono {readOnly' : Bool} (h : files.Claims node readOnly devs) (hmono : readOnly' = false → readOnly = false) :
    files.Claims node readOnly' devs := by
  refine ⟨fun file hfile => ?_, h.claimed⟩
  obtain ⟨fd, hfd, hf, hk⟩ := h.locked file hfile
  exact ⟨fd, hfd, hf, fun hr => hk (hmono hr)⟩

theorem Files.Claims.backs {a : Attachment φ} (h : files.Claims node readOnly devs) (ha : a.readOnly = false → readOnly = false) :
    files.Backs a :=
  fun hclaimed => (h.mono ha).locked a.file hclaimed

/-- A granted lock adds a claim on the device and leaves the others. -/
theorem Files.Claims.granted (h : files.Claims node readOnly devs) (di : DevInfo) (disk : Desc) :
    (files.after node (.openLocked di.rpath (lockKind readOnly)) (.granted disk)).Claims node readOnly (devs ++ [di]) := by
  constructor
  · intro file hfile
    rcases List.mem_cons.1 hfile with rfl | hfile
    · refine ⟨_, List.mem_cons_self, rfl, fun hr => ?_⟩
      rw [hr]
      rfl
    · obtain ⟨fd, hfd, hf, hk⟩ := h.locked file hfile
      exact ⟨fd, List.mem_cons_of_mem _ hfd, hf, hk⟩
  · intro di' hdi
    rcases List.mem_append.1 hdi with hdi | hdi
    · exact List.mem_cons_of_mem _ (h.claimed di' hdi)
    · rw [List.mem_singleton.1 hdi]
      exact List.mem_cons_self

/-- What holds of the files when a part of `claim_devices` returns these devices: the claims are good, and no disk is attached. -/
def Claiming (node : Bytes → φ) (readOnly : Bool) (devs : List DevInfo) (files : Files φ) : Prop :=
  files.Claims node readOnly devs ∧ files.Unattached

/-- What holds of the files when a part of a command fails: no disk is attached. -/
def Failed (_ : Bytes) (files : Files φ) : Prop := files.Unattached

theorem wp_openDisk (devInfo : DevInfo) (what : String) (h : files.Claims node readOnly devs) (hu : files.Unattached) :
    (openDisk devInfo readOnly what).wp (deviceRules node root) (fun _ => Claiming node readOnly (devs ++ [devInfo])) Failed files := by
  refine Prog.wp_bind.2 ⟨hu, fun opened => ?_⟩
  cases opened with
  | notOpened => exact hu
  | refused => exact hu
  | granted disk => exact ⟨h.granted devInfo disk, hu⟩

/-- One device is claimed in addition. -/
abbrev ClaimsOne (node : Bytes → φ) (readOnly : Bool) (devs : List DevInfo) (r : DevInfo × Desc) : Files φ → Prop :=
  Claiming node readOnly (devs ++ [r.1])

/-- Open the disk of a device and return both. -/
theorem wp_openDisk_pair (devInfo : DevInfo) (what : String) (h : files.Claims node readOnly devs) (hu : files.Unattached) :
    (openDisk devInfo readOnly what >>= fun disk => pure (devInfo, disk)).wp (deviceRules node root)
      (ClaimsOne node readOnly devs) Failed files :=
  Prog.wp_bind.2 (wp_openDisk devInfo what h hu)

theorem wp_resolveDiskToken (token : List Char) (h : files.Claims node readOnly devs) (hu : files.Unattached) :
    (resolveDiskToken token readOnly).wp (deviceRules node root) (ClaimsOne node readOnly devs) Failed files := by
  have hfail : ∀ e, Failed e files := fun _ => hu
  unfold resolveDiskToken
  split
  next imagePath partNum _ =>
    refine Prog.wp_bind_of_keeps (keeps_sys rfl) hfail fun found => ?_
    cases found with
    | false => exact hu
    | true =>
      simp only [Bool.not_true, Bool.false_eq_true, if_false]
      split
      · exact Prog.wp_bind_of_keeps (keeps_unprobedImage _ _) hfail fun dev => wp_openDisk_pair dev _ h hu
      · refine Prog.wp_bind_of_keeps (keeps_probeImage _) hfail fun devs => ?_
        split
        · exact hu
        · exact wp_openDisk_pair _ _ h hu
  next =>
    refine Prog.wp_bind_of_keeps (keeps_sys rfl) hfail fun isFile => ?_
    cases isFile with
    | false => exact Prog.wp_bind_of_keeps (keeps_pv _ _) hfail fun dev => wp_openDisk_pair dev _ h hu
    | true =>
      simp only [if_true]
      split
      · exact Prog.wp_bind_of_keeps (keeps_unprobedImage _ _) hfail fun dev => wp_openDisk_pair dev _ h hu
      · exact Prog.wp_bind_of_keeps (keeps_pv _ _) hfail fun dev => wp_openDisk_pair dev _ h hu

/-- Closing files leaves no disk attached. -/
theorem wp_closeAll (disks : List Desc) (hu : files.Unattached) :
    (closeAll disks).wp (deviceRules node root) (fun _ f => f.Unattached) Failed files := by
  induction disks generalizing files with
  | nil => exact hu
  | cons disk rest ih => exact Prog.wp_bind.2 ⟨hu, fun _ => ih hu⟩

theorem wp_claimMember (mountTable : List Bytes) (token : List Char) (h : files.Claims node readOnly devs) (hu : files.Unattached) :
    (claimMember mountTable readOnly token).wp (deviceRules node root) (ClaimsOne node readOnly devs) Failed files := by
  refine Prog.wp_bind.2 (Prog.wp_mono ?_ (fun _ _ hf => hf) (wp_resolveDiskToken token h hu))
  rintro ⟨devInfo, disk⟩ f hf
  by_cases hmounted : devInfo.isImage = false ∧ devInfo.path ∈ mountTable
  · simp only [hmounted, and_self, if_true]
    exact ⟨hf.2, fun _ => hf.2⟩
  · simp only [hmounted, if_false]
    exact hf

theorem wp_claimPlain (mountTable : List Bytes) (allowRemount : Bool) (token : List Char) (h : files.Claims node readOnly devs)
    (hu : files.Unattached) :
    (claimPlain mountTable allowRemount readOnly token).wp (deviceRules node root) (ClaimsOne node readOnly devs) Failed files := by
  have hfail : ∀ e, Failed e files := fun _ => hu
  have hresolve : (resolveDiskToken token readOnly).wp (deviceRules node root) (ClaimsOne node readOnly devs) Failed files :=
    wp_resolveDiskToken token h hu
  unfold claimPlain
  split
  · exact hresolve
  · refine Prog.wp_bind_of_keeps (keeps_sys rfl) hfail fun isFile => ?_
    cases isFile with
    | true => exact hresolve
    | false =>
      refine Prog.wp_bind_of_keeps (keeps_sys rfl) hfail fun found => ?_
      cases found with
      | false => exact hu
      | true =>
        simp only [Bool.not_true, Bool.false_eq_true, if_false]
        split
        · split
          · refine Prog.wp_bind_of_keeps (keeps_sys rfl) hfail fun r => ?_
            exact Prog.wp_bind_of_keeps (keeps_orBail r) hfail fun _ => hresolve
          · exact hu
        · exact hresolve

/-- What is claimed for one token, whatever has been claimed before. -/
def ClaimsToken (node : Bytes → φ) (root : φ → Prop) (readOnly : Bool) (claim : List Char → Host (DevInfo × Desc)) : Prop :=
  ∀ token (files : Files φ) devs, files.Claims node readOnly devs → files.Unattached →
    (claim token).wp (deviceRules node root) (ClaimsOne node readOnly devs) Failed files

/-- The loop over the tokens claims every device that it returns, if every turn does. -/
theorem wp_claimLoop {claim : List Char → Host (DevInfo × Desc)} (hclaim : ClaimsToken node root readOnly claim)
    (tokens : List (List Char)) (disks : List Desc) (h : files.Claims node readOnly devs) (hu : files.Unattached) :
    (claimLoop claim tokens devs disks).wp (deviceRules node root) (fun r => Claiming node readOnly r.1) Failed files := by
  induction tokens generalizing files devs disks with
  | nil => exact ⟨h, hu⟩
  | cons token rest ih =>
    refine Prog.wp_bind.2 (Prog.wp_handle.2 (Prog.wp_mono ?_ ?_ (hclaim token files devs h hu)))
    · exact fun a f hf => ih _ hf.1 hf.2
    · exact fun e f hf => Prog.wp_bind.2 (Prog.wp_mono (fun _ _ hf' => hf') (fun _ _ hf' => hf') (wp_closeAll disks hf))

/-- What holds when a disk path is claimed: the claims are on the devices that are returned. -/
def ClaimsPath (node : Bytes → φ) (config : MountConfig) (claimed : Claimed) (files : Files φ) : Prop :=
  Claiming node config.readOnly claimed.devInfos files ∧ claimed.config.readOnly = config.readOnly ∧
    claimed.config.common = config.common

/-- The loop over the tokens of a disk path, and what is made of the devices without another call. -/
theorem wp_claimLoop_map {config : MountConfig} {claim : List Char → Host (DevInfo × Desc)}
    (hclaim : ClaimsToken node root config.readOnly claim) (tokens : List (List Char)) {result : List DevInfo × List Desc → Claimed}
    (hresult : ∀ a, (result a).devInfos = a.1 ∧ (result a).config.readOnly = config.readOnly ∧
      (result a).config.common = config.common)
    (h : files.Claims node config.readOnly []) (hu : files.Unattached) :
    (claimLoop claim tokens [] [] >>= fun a => pure (result a)).wp (deviceRules node root) (ClaimsPath node config) Failed files := by
  refine Prog.wp_bind.2 (Prog.wp_mono (fun a f hf => ?_) (fun _ _ hf => hf) (wp_claimLoop hclaim tokens [] h hu))
  exact ⟨(hresult a).1 ▸ hf, (hresult a).2⟩

theorem wp_claimDiskPath (config : MountConfig) (mountTable : List Bytes) (h : files.Claims node config.readOnly [])
    (hu : files.Unattached) :
    (claimDiskPath config mountTable).wp (deviceRules node root) (ClaimsPath node config) Failed files := by
  have hmember : ClaimsToken node root config.readOnly (claimMember mountTable config.readOnly) :=
    fun token _ _ => wp_claimMember mountTable token
  unfold claimDiskPath
  dsimp only
  split
  · split
    · exact hu
    · exact wp_claimLoop_map hmember _ (fun _ => ⟨rfl, rfl, rfl⟩) h hu
  · split
    · split
      · exact hu
      · exact wp_claimLoop_map hmember _ (fun _ => ⟨rfl, rfl, rfl⟩) h hu
    · split
      · exact ⟨⟨h, hu⟩, rfl, rfl⟩
      · exact wp_claimLoop_map (fun token _ _ => wp_claimPlain mountTable config.allowRemount token) _ (fun _ => ⟨rfl, rfl, rfl⟩) h hu

@[simp] theorem readOnly_chooseKernel (config : MountConfig) (mntDevInfo : DevInfo) :
    (chooseKernel config mntDevInfo).readOnly = config.readOnly := by
  unfold chooseKernel
  split <;> rfl

theorem readOnly_of_honourMedia {config : MountConfig} {mntDevInfo : DevInfo}
    (h : (honourMedia config mntDevInfo).readOnly = false) : config.readOnly = false := by
  unfold honourMedia at h
  split at h
  · cases h
  · exact h

/-- The changes to the configuration leave the root disk as it is. -/
theorem rootDisk_honourMedia (config : MountConfig) (mntDevInfo : DevInfo) :
    (Instance.mount (honourMedia (chooseKernel config mntDevInfo) mntDevInfo)).rootDisk = (Instance.mount config).rootDisk := by
  unfold honourMedia chooseKernel
  split <;> split <;> rfl

/-- What holds when `claim_devices` succeeds: the claims are on the devices that it returns. -/
def ClaimsAll (node : Bytes → φ) (config : MountConfig) (claimed : Claimed) (files : Files φ) : Prop :=
  Claiming node claimed.config.readOnly claimed.devInfos files ∧
    (Instance.mount claimed.config).rootDisk = (Instance.mount config).rootDisk

/-- `claim_devices` leaves claims that are good for the value of `read_only` that it leaves: they were taken for the value at
the start, and the value is only ever changed to read-only. -/
theorem wp_claimDevices (config : MountConfig) (h : files.Claims node config.readOnly []) (hu : files.Unattached) :
    (claimDevices config).wp (deviceRules node root) (ClaimsAll node config) Failed files := by
  have hfail : ∀ e, Failed e files := fun _ => hu
  unfold claimDevices
  refine Prog.wp_bind_of_keeps (keeps_sys rfl) hfail fun table => ?_
  refine Prog.wp_bind_of_keeps (keeps_orBail table) hfail fun mountTable => ?_
  refine Prog.wp_bind.2 (Prog.wp_mono ?_ (fun _ _ hf => hf) (wp_claimDiskPath config mountTable h hu))
  rintro claimed f ⟨⟨hclaims, hf⟩, hro, hcommon⟩
  refine ⟨⟨hclaims.mono fun hfinal => ?_, hf⟩, ?_⟩
  · rw [← hro, ← readOnly_chooseKernel claimed.config]
    exact readOnly_of_honourMedia hfinal
  · refine (rootDisk_honourMedia claimed.config _).trans ?_
    simp only [Instance.rootDisk, hcommon]

/-! ## Virtual machines and commands -/

/-- The disks that a process attaches are backed if its claims are good for the mode of the options, and every disk is claimed or a
root disk. -/
theorem wp_addDisks {opts : VmOpts} (i : Nat) (devInfo : List DevInfo) (h : files.Claims node opts.addDisksRo devs)
    (hdevs : ∀ di ∈ devInfo, files.Covers root (node di.rpath)) :
    (addDisks opts i devInfo).wp (deviceRules node root) (fun _ f => f.Claims node opts.addDisksRo devs) (fun _ _ => True) files := by
  induction devInfo generalizing files i with
  | nil => exact h
  | cons di rest ih =>
    have hback : files.Backs ⟨node di.rpath, opts.addDisksRo || decide (i < opts.readOnlyDiskPrefixLen)⟩ := by
      refine h.backs fun hro => ?_
      simp only [Bool.or_eq_false_iff] at hro
      exact hro.1
    refine Prog.wp_bind.2 ⟨⟨hback, hdevs di List.mem_cons_self⟩, fun added => ?_⟩
    cases added with
    | false => trivial
    | true => exact ih (i + 1) ⟨h.locked, h.claimed⟩ fun di' hdi => hdevs di' (List.mem_cons_of_mem di hdi)

/-- A program that leaves the files alone meets any postcondition that they meet already. -/
theorem wp_of_keeps {p : Host α} {Q : α → Files φ → Prop} {F : Bytes → Files φ → Prop} (hp : p.Keeps (deviceRules node root) files)
    (hQ : ∀ a, Q a files) (hF : ∀ e, F e files) : p.wp (deviceRules node root) Q F files := by
  refine Prog.wp_mono (fun a f hf => ?_) (fun e f hf => ?_) hp
  · rw [hf]
    exact hQ a
  · rw [hf]
    exact hF e

/-- The postcondition that asks for nothing. -/
abbrev Anyhow (_ : α) (_ : Files φ) : Prop := True

theorem wp_attempt (what : Stage) : (attempt what).wp (deviceRules node root) Anyhow Anyhow files :=
  wp_of_keeps (keeps_attempt what) (fun _ => trivial) (fun _ => trivial)

theorem wp_setupVm {opts : VmOpts} (devInfo : List DevInfo) (h : files.Claims node opts.addDisksRo devs)
    (hdevs : ∀ di ∈ devInfo, files.Covers root (node di.rpath)) :
    (setupVm devInfo opts).wp (deviceRules node root) Anyhow Anyhow files := by
  refine Prog.wp_bind_of_keeps (keeps_attempt _) (fun _ => trivial) fun _ => Prog.wp_bind.2 ?_
  exact Prog.wp_mono (fun _ _ _ => wp_attempt _) (fun _ _ _ => trivial) (wp_addDisks 0 devInfo h hdevs)

/-- When the context of the virtual machine is dropped, no disk is attached. -/
theorem wp_ensuring_dropCtx {p : Host Unit} (hp : p.wp (deviceRules node root) Anyhow Anyhow files) :
    (p.ensuring (sys .dropCtx)).wp (deviceRules node root) (fun _ f => f.Unattached) Failed files :=
  Prog.wp_ensuring Anyhow Anyhow hp (fun _ _ _ => ⟨trivial, fun _ => rfl⟩) (fun _ _ _ => ⟨trivial, fun _ => rfl⟩)

/-- The devices that are claimed are covered. -/
theorem Files.Claims.covers (h : files.Claims node readOnly devs) : ∀ di ∈ devs, files.Covers root (node di.rpath) :=
  fun di hdi => .inl (h.claimed di hdi)

/-- The root disk is put before the devices without a change to the mode in which they are attached. -/
theorem wp_withRootDisk {path : Bytes} (hroot : root (node (devicePaths path).2)) (config : MountConfig) (opts : VmOpts)
    (h : files.Claims node readOnly devs) (hu : files.Unattached) :
    (withRootDisk path config devs opts).wp (deviceRules node root)
      (fun r f => r.2.addDisksRo = opts.addDisksRo ∧ f = files ∧ ∀ di ∈ r.1, files.Covers root (node di.rpath)) Failed files := by
  have hpv : (DevInfo.pv path true).wp (deviceRules node root)
      (fun di f => f = files ∧ di.rpath = (devicePaths path).2) Failed files := by
    unfold DevInfo.pv
    by_cases hpath : path = []
    · simp only [hpath, if_true]
      exact hu
    · simp only [hpath, if_false]
      refine Prog.wp_bind_of_keeps (keeps_sys rfl) (fun _ => hu) fun probe => ?_
      cases probe with
      | none => exact hu
      | some probe => exact Prog.wp_bind_of_keeps (keeps_sys rfl) (fun _ => hu) fun _ => ⟨rfl, rfl⟩
  refine Prog.wp_bind.2 (Prog.wp_mono ?_ (fun _ _ hf => hf) hpv)
  rintro di f ⟨rfl, hdi⟩
  refine ⟨rfl, rfl, List.forall_mem_cons.2 ⟨.inr ?_, h.covers⟩⟩
  rw [hdi]
  exact hroot

theorem wp_mountVm {opts : VmOpts} (devInfo : List DevInfo) (h : files.Claims node opts.addDisksRo devs)
    (hdevs : ∀ di ∈ devInfo, files.Covers root (node di.rpath)) :
    (mountVm devInfo opts).wp (deviceRules node root) (fun _ f => f.Unattached) Failed files := by
  refine wp_ensuring_dropCtx (Prog.wp_bind.2 ?_)
  exact Prog.wp_mono (fun _ _ _ => wp_attempt _) (fun _ _ _ => trivial) (wp_setupVm devInfo h hdevs)

theorem wp_mountDevices {opts : VmOpts} (devInfo : List DevInfo) (h : files.Claims node opts.addDisksRo devs)
    (hdevs : ∀ di ∈ devInfo, files.Covers root (node di.rpath)) (hu : files.Unattached) :
    (mountDevices devInfo opts).wp (deviceRules node root) (fun _ f => f.Unattached) Failed files := by
  have hfail : ∀ e, Failed e files := fun _ => hu
  refine Prog.wp_bind_of_keeps (keeps_attempt _) hfail fun _ => ?_
  refine Prog.wp_bind_of_keeps (keeps_attempt _) hfail fun _ => ?_
  refine Prog.wp_bind_of_keeps (keeps_attempt _) hfail fun _ => ?_
  refine Prog.wp_bind_of_keeps (keeps_attempt _) hfail fun _ => ?_
  refine Prog.wp_bind_of_keeps (keeps_sys rfl) hfail fun forked => ?_
  cases forked with
  | failed => exact hu
  | parent => exact wp_of_keeps (keeps_attempt _) (fun _ => hu) hfail
  | child => exact wp_mountVm devInfo h hdevs

theorem wp_mountClaimed (claimed : Claimed) (hroot : ∀ path ∈ (Instance.mount claimed.config).rootDisk, root (node (devicePaths path).2))
    (h : files.Claims node claimed.config.readOnly claimed.devInfos) (hu : files.Unattached) :
    (mountClaimed claimed).wp (deviceRules node root) (fun _ f => f.Unattached) Failed files := by
  unfold mountClaimed
  dsimp only
  split
  · split
    · exact hu
    · next src hsrc =>
      have hpath : root (node (devicePaths (rootDiskPath claimed.config.common src)).2) :=
        hroot _ (by rw [Instance.rootDisk, hsrc]; rfl)
      refine Prog.wp_bind.2 (Prog.wp_mono ?_ (fun _ _ hf => hf) (wp_withRootDisk hpath _ _ h hu))
      rintro ⟨devInfo, opts⟩ f ⟨hopts, rfl, hdevs⟩
      exact wp_mountDevices devInfo (by rwa [hopts]) hdevs hu
  · exact wp_mountDevices claimed.devInfos h h.covers hu

theorem wp_shellDevices {opts : VmOpts} (cmd : ShellCmd) (os : OsType) (devInfo : List DevInfo)
    (h : files.Claims node opts.addDisksRo devs) (hdevs : ∀ di ∈ devInfo, files.Covers root (node di.rpath)) :
    (shellDevices cmd os devInfo opts).wp (deviceRules node root) (fun _ f => f.Unattached) Failed files := by
  refine wp_ensuring_dropCtx (Prog.wp_bind.2 ?_)
  refine Prog.wp_mono (fun _ f _ => ?_) (fun _ _ _ => trivial) (wp_setupVm devInfo h hdevs)
  split
  · exact wp_attempt _
  · refine Prog.wp_bind_of_keeps (keeps_attempt _) (fun _ => trivial) fun _ => ?_
    refine Prog.wp_bind_of_keeps (keeps_sys rfl) (fun _ => trivial) fun forked => ?_
    cases forked with
    | failed => trivial
    | parent => exact wp_attempt _
    | child => exact wp_attempt _

theorem wp_shellClaimed (cmd : ShellCmd) (rootDisk : Option Bytes) (claimed : Claimed)
    (hroot : ∀ path ∈ rootDisk, root (node (devicePaths path).2))
    (h : files.Claims node claimed.config.readOnly claimed.devInfos) (hu : files.Unattached) :
    (shellClaimed cmd rootDisk claimed).wp (deviceRules node root) (fun _ f => f.Unattached) Failed files := by
  unfold shellClaimed
  dsimp only
  split
  · next path hpath =>
    refine Prog.wp_bind.2 (Prog.wp_mono ?_ (fun _ _ hf => hf) (wp_withRootDisk (hroot path (Option.filter_eq_some_iff.1 hpath).1) _ _ h hu))
    rintro ⟨devInfo, opts⟩ f ⟨hopts, rfl, hdevs⟩
    exact wp_shellDevices cmd _ devInfo (by rwa [hopts]) hdevs
  · exact wp_shellDevices cmd _ claimed.devInfos h h.covers

/-- Claim the devices, use them, and close them on every way out. -/
theorem wp_claim_ensuring {body : Claimed → Host Unit} (config : MountConfig)
    (hbody : ∀ claimed (f : Files φ), ClaimsAll node config claimed f →
      (body claimed).wp (deviceRules node root) (fun _ f => f.Unattached) Failed f)
    (h : files.Claims node config.readOnly []) (hu : files.Unattached) :
    (claimDevices config >>= fun claimed => (body claimed).ensuring (closeAll claimed.disks)).wp (deviceRules node root)
      Anyhow Anyhow files := by
  refine Prog.wp_bind.2 (Prog.wp_mono (fun claimed f hf => ?_) (fun _ _ _ => trivial) (wp_claimDevices config h hu))
  refine Prog.wp_ensuring _ _ (hbody claimed f hf) (fun _ f' hf' => ?_) (fun _ f' hf' => ?_)
  · exact Prog.wp_mono (fun _ _ _ => trivial) (fun _ _ _ => trivial) (wp_closeAll claimed.disks hf')
  · exact Prog.wp_mono (fun _ _ _ => trivial) (fun _ _ _ => trivial) (wp_closeAll claimed.disks hf')

/-- The root disk of a shell is that of its image. -/
theorem wp_shellImage (cmd : ShellCmd) (config : MountConfig) :
    (shellImage config cmd.image).wp (deviceRules node root)
      (fun r f => f = files ∧ ∀ path ∈ r.2, path ∈ (Instance.shell cmd config).rootDisk) Anyhow files := by
  unfold shellImage
  split
  · exact ⟨rfl, fun _ hpath => by cases hpath⟩
  · next imageName himage =>
    split
    · trivial
    · next hfilter =>
      refine ⟨rfl, fun path hpath => ?_⟩
      cases hpath
      simp only [Instance.rootDisk, himage, Option.map_some, hfilter]
      rfl
    · trivial

/-- A process without files has good claims. -/
theorem claims_empty (readOnly : Bool) : ({} : Files φ).Claims node readOnly [] :=
  ⟨fun _ h => absurd h List.not_mem_nil, fun _ h => absurd h List.not_mem_nil⟩

/-- Every command keeps to the rules, whatever it is answered. -/
theorem wp_program (i : Instance) : i.program.wp (deviceRules node (i.AttachesRoot node)) Anyhow Anyhow {} := by
  cases i with
  | mount config =>
    refine Prog.wp_bind_of_keeps (keeps_attempt _) (fun _ => trivial) fun _ => ?_
    refine wp_claim_ensuring config (fun claimed f hf => ?_) (claims_empty _) rfl
    exact wp_mountClaimed claimed (fun path hpath => ⟨path, hf.2 ▸ hpath, rfl⟩) hf.1.1 hf.1.2
  | shell cmd config =>
    refine Prog.wp_bind_of_keeps (keeps_attempt _) (fun _ => trivial) fun _ => Prog.wp_bind.2 ?_
    refine Prog.wp_mono ?_ (fun _ _ _ => trivial) (wp_shellImage cmd config)
    rintro image f ⟨rfl, himage⟩
    have hrest : (attempt .prepareVmEnvironment >>= fun _ => claimDevices image.1 >>= fun claimed =>
        (shellClaimed cmd image.2 claimed).ensuring (closeAll claimed.disks)).wp
          (deviceRules node ((Instance.shell cmd config).AttachesRoot node)) Anyhow Anyhow {} := by
      refine Prog.wp_bind_of_keeps (keeps_attempt _) (fun _ => trivial) fun _ => ?_
      refine wp_claim_ensuring image.1 (fun claimed f hf => ?_) (claims_empty _) rfl
      exact wp_shellClaimed cmd image.2 claimed (fun path hpath => ⟨path, himage path hpath, rfl⟩) hf.1.1 hf.1.2
    dsimp only
    split
    · exact Prog.wp_bind_of_keeps (keeps_attempt _) (fun _ => trivial) fun _ => hrest
    · exact hrest

end DeviceSys

end Anylinuxfs
