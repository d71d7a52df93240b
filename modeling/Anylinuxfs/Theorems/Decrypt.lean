import Anylinuxfs.DeviceSys
import Anylinuxfs.Lemmas.Decrypt

/-!
# Encrypted devices from the host to the guest

The host hands the guest a letter for each encrypted device and the type of the mounted one. The guest then opens the right nodes
with the right operations exactly if it is a Linux guest, no encrypted device is a partition of an image or comes after the
26th disk, and all encrypted devices are opened with the operation of the mounted one. The prompts of the guest are those that
the host waits for exactly if the passphrases are not supplied by the environment of a custom action.
-/

namespace Anylinuxfs

open Interact (Prog)

/-! ## Letters -/

theorem drop_letters {k : Nat} (hk : k < 26) : ∃ c, diskLetters k = [c] ∧ letters.drop k = c :: letters.drop (k + 1) := by
  have hlen : k < letters.length := hk
  refine ⟨letters[k], ?_, List.drop_eq_getElem_cons hlen⟩
  rw [diskLetters, if_pos hk, List.drop_eq_getElem_cons hlen]
  rfl

theorem drop_letters_eq_nil {k : Nat} (hk : 26 ≤ k) : letters.drop k = [] := List.drop_eq_nil_of_le hk

/-- A node with a partition number is not that of the disk. -/
theorem vdDisk_eq_guestNode {k : Nat} {c : Char} (hc : diskLetters k = [c]) (di : DevInfo) :
    vdDisk [c] = guestNode .linux k di ↔ di.vmPartIdx = none := by
  simp only [guestNode, hc]
  cases di.vmPartIdx with
  | none => simp
  | some n => simp [Nat.toDigits_ne_nil]

/-! ## The nodes -/

/-- What the guest is to open, of the devices from an index on. -/
def handed (k : Nat) (devs : List DevInfo) : List (List Char) :=
  (devs.zip (letters.drop k)).filterMap (fun (di, letter) =>
    if di.isEncrypted then some (vdDisk [letter]) else none)

theorem handed_eq_nil {k : Nat} (hk : 26 ≤ k) (devs : List DevInfo) : handed k devs = [] := by
  simp only [handed, drop_letters_eq_nil hk, List.zip_nil_right, List.filterMap_nil]

/-- What the guest runs, if nothing fails, from an index on. -/
def handedRuns (op : String) (k : Nat) (devs : List DevInfo) : List (String × List Char) :=
  (handed k devs).map (fun d => (op, d))

/-- What the guest should run from an index on. -/
def expectedRuns (os : OsType) (k : Nat) (devs : List DevInfo) : List (String × List Char) :=
  (devs.zipIdx k).filterMap (fun (di, i) =>
    if di.isEncrypted then some (cryptsetupOp di.fsType, guestNode os i di) else none)

theorem handed_cons {k : Nat} {c : Char} (hk : letters.drop k = c :: letters.drop (k + 1)) (di : DevInfo) (devs : List DevInfo) :
    handed k (di :: devs) =
      if di.isEncrypted then vdDisk [c] :: handed (k + 1) devs else handed (k + 1) devs := by
  simp only [handed, hk, List.zip_cons_cons, List.filterMap_cons]
  cases di.isEncrypted <;> rfl

theorem expectedRuns_cons (os : OsType) (k : Nat) (di : DevInfo) (devs : List DevInfo) : expectedRuns os k (di :: devs) =
    if di.isEncrypted then (cryptsetupOp di.fsType, guestNode os k di) :: expectedRuns os (k + 1) devs
    else expectedRuns os (k + 1) devs := by
  simp only [expectedRuns, List.zipIdx_cons, List.filterMap_cons]
  cases di.isEncrypted <;> rfl

/-- Nothing is expected exactly when no device is encrypted. -/
theorem expectedRuns_eq_nil (os : OsType) (k : Nat) (devs : List DevInfo) :
    expectedRuns os k devs = [] ↔ ∀ di ∈ devs, di.isEncrypted = false := by
  induction devs generalizing k with
  | nil => simp [expectedRuns]
  | cons di devs ih =>
    rw [expectedRuns_cons]
    cases hd : di.isEncrypted <;> simp [ih, hd]

/-- The devices of a Linux guest are handed over as they should be. -/
theorem handedRuns_eq_iff (op : String) (k : Nat) (devs : List DevInfo) : handedRuns op k devs = expectedRuns .linux k devs ↔
    ∀ i di, devs[i]? = some di → di.isEncrypted = true →
      k + i < 26 ∧ di.vmPartIdx = none ∧ cryptsetupOp di.fsType = op := by
  induction devs generalizing k with
  | nil => simp [handedRuns, handed, expectedRuns]
  | cons di devs ih =>
    rcases Nat.lt_or_ge k 26 with hk | hk
    · obtain ⟨c, hc, hdrop⟩ := drop_letters hk
      have hfirst : (∀ i d, (di :: devs)[i]? = some d → d.isEncrypted = true →
            k + i < 26 ∧ d.vmPartIdx = none ∧ cryptsetupOp d.fsType = op) ↔
          (di.isEncrypted = true → di.vmPartIdx = none ∧ cryptsetupOp di.fsType = op) ∧
            handedRuns op (k + 1) devs = expectedRuns .linux (k + 1) devs := by
        rw [ih]
        constructor
        · intro h
          refine ⟨fun hd => (h 0 di rfl hd).2, fun i d hi hd => ?_⟩
          have := h (i + 1) d hi hd
          rwa [← Nat.add_assoc, Nat.add_right_comm] at this
        · rintro ⟨h0, h⟩ i d hi hd
          cases i with
          | zero =>
            cases hi
            exact ⟨hk, h0 hd⟩
          | succ i =>
            have := h i d hi hd
            rwa [← Nat.add_assoc, Nat.add_right_comm]
      rw [hfirst, expectedRuns_cons, handedRuns, handed_cons hdrop]
      cases hd : di.isEncrypted with
      | false => simp [handedRuns]
      | true =>
        simp [handedRuns, vdDisk_eq_guestNode hc, eq_comm, and_comm]
    · -- from the 27th disk on nothing is handed over
      rw [handedRuns, handed_eq_nil hk, List.map_nil, eq_comm, expectedRuns_eq_nil]
      constructor
      · intro h i d hi hd
        rw [h d (List.mem_of_getElem? hi)] at hd
        cases hd
      · intro h d hd
        obtain ⟨i, hi⟩ := List.mem_iff_getElem?.1 hd
        cases henc : d.isEncrypted with
        | false => rfl
        | true =>
          have := (h i d hi henc).1
          omega

/-! ## The hand-off -/

theorem comma_notMem_vdDisk : ∀ letter ∈ letters, ',' ∉ vdDisk [letter] := by
  have hall : letters.all (fun letter => decide (',' ∉ vdDisk [letter])) = true := by decide
  intro letter hletter
  exact of_decide_eq_true (List.all_eq_true.1 hall letter hletter)

theorem comma_notMem_handed {k : Nat} {devs : List DevInfo} : ∀ d ∈ handed k devs, ',' ∉ d := by
  intro d hd
  obtain ⟨⟨di, letter⟩, hmem, hsome⟩ := List.mem_filterMap.1 hd
  have hletter : letter ∈ letters := List.mem_of_mem_drop (List.of_mem_zip hmem).2
  have hdisk : vdDisk [letter] = d := by
    dsimp only at hsome
    split at hsome
    · exact Option.some.inj hsome
    · cases hsome
  rw [← hdisk]
  exact comma_notMem_vdDisk letter hletter

/-- A guest without a type for the mounted device uses the same operation as one with an unknown type. -/
theorem cryptsetupOp_auto (fsType : Option (List Char)) : cryptsetupOp (some (fsType.getD "auto".toList)) = cryptsetupOp fsType := by
  cases fsType with
  | none => decide
  | some t => rfl

namespace HandOff

variable (h : HandOff)

/-- The operation for all devices. -/
def op : String := cryptsetupOp h.mntDevInfo.fsType

theorem program_eq_pure (hnil : handed 0 h.attached = []) (keyFilePath : Option (List Char)) (vmEnv : List Bytes) :
    h.program keyFilePath vmEnv = pure () := by
  have hnone : (vmproxyArgs h.config h.mntDevInfo (toDecrypt h.attached)).decrypt = none := if_pos hnil
  simp only [program, runDecrypt, hnone]

/-- What the guest knows when it decrypts its devices. -/
def context (keyFilePath : Option (List Char)) (vmEnv : List Bytes) : VmDiskContext :=
  VmDiskContext.new (vmproxyArgs h.config h.mntDevInfo (toDecrypt h.attached)) keyFilePath vmEnv

theorem program_eq_decrypt (hne : handed 0 h.attached ≠ []) (keyFilePath : Option (List Char)) (vmEnv : List Bytes) :
    h.program keyFilePath vmEnv = (h.context keyFilePath vmEnv).decrypt ([','].intercalate (handed 0 h.attached))
      (decide (h.config.common.passphraseConfig = .oneForAll)) := by
  have hsome : (vmproxyArgs h.config h.mntDevInfo (toDecrypt h.attached)).decrypt =
      some ([','].intercalate (handed 0 h.attached)) := if_neg hne
  simp only [program, runDecrypt, hsome]
  rfl

theorem splitOn_handed (hne : handed 0 h.attached ≠ []) :
    ([','].intercalate (handed 0 h.attached)).splitOn ',' = handed 0 h.attached :=
  List.splitOn_intercalate ',' comma_notMem_handed hne

/-- The runs of the guest are those that it was told, up to the first failure. -/
theorem program_runs (keyFilePath : Option (List Char)) (vmEnv : List Bytes) (env : ∀ c : GuestCall, c.Answer) :
    ((h.program keyFilePath vmEnv).trace env).filterMap GuestCall.run? <+: handedRuns h.op 0 h.attached ∧
      ((h.program keyFilePath vmEnv).result env = .ok () →
        ((h.program keyFilePath vmEnv).trace env).filterMap GuestCall.run? = handedRuns h.op 0 h.attached) := by
  by_cases hnil : handed 0 h.attached = []
  · simp [h.program_eq_pure hnil, handedRuns, hnil]
  · have hop : (h.context keyFilePath vmEnv).cryptsetupOp = h.op := cryptsetupOp_auto _
    have hmap : (([','].intercalate (handed 0 h.attached)).splitOn ',').map
        (fun d => ((h.context keyFilePath vmEnv).cryptsetupOp, d)) = handedRuns h.op 0 h.attached := by
      rw [h.splitOn_handed hnil, hop]
      rfl
    rw [h.program_eq_decrypt hnil, ← hmap]
    exact VmDiskContext.decrypt_runs

/-- With a key file all devices can be opened. -/
theorem program_allOpen (key : List Char) : (h.program (some key) []).result VmDiskContext.allOpen = .ok () := by
  by_cases hnil : handed 0 h.attached = []
  · rw [h.program_eq_pure hnil]
    rfl
  · rw [h.program_eq_decrypt hnil]
    exact VmDiskContext.decrypt_allOpen (.inl ⟨rfl, rfl⟩)

/-- The hand-off is faithful exactly when the guest is told what it should run. -/
theorem faithful_iff_handedRuns : h.Faithful ↔ handedRuns h.op 0 h.attached = h.expected := by
  constructor
  · intro hf
    rw [← (h.program_runs (some []) [] VmDiskContext.allOpen).2 (h.program_allOpen [])]
    exact (hf (some []) [] VmDiskContext.allOpen).2 (h.program_allOpen [])
  · intro heq keyFilePath vmEnv env
    rw [← heq]
    exact h.program_runs keyFilePath vmEnv env

theorem not_prefix_vd : ¬ ("/dev/vd".toList <+: "/dev/vtbd".toList ∨ "/dev/vtbd".toList <+: "/dev/vd".toList) := by
  decide

/-- A disk of a Linux guest is not one of a FreeBSD guest. -/
theorem vdDisk_ne_guestNode (name : List Char) (i : Nat) (di : DevInfo) : vdDisk name ≠ guestNode .freeBsd i di := by
  intro heq
  have hvd : "/dev/vd".toList <+: vdDisk name := List.prefix_append _ _
  have hvtbd : "/dev/vtbd".toList <+: guestNode .freeBsd i di := (List.prefix_append _ _).trans (List.prefix_append _ _)
  rw [← heq] at hvtbd
  exact not_prefix_vd (List.prefix_or_prefix_of_prefix hvd hvtbd)

/-- A run that the guest was told is on a disk of a Linux guest. -/
theorem exists_vdDisk_of_mem {op : String} {k : Nat} {devs : List DevInfo} {r : String × List Char}
    (hr : r ∈ handedRuns op k devs) : ∃ letter, r = (op, vdDisk [letter]) := by
  obtain ⟨d, hd, rfl⟩ := List.mem_map.1 hr
  obtain ⟨⟨di, letter⟩, -, hsome⟩ := List.mem_filterMap.1 hd
  refine ⟨letter, ?_⟩
  dsimp only at hsome
  split at hsome
  · rw [Option.some.inj hsome]
  · cases hsome

/-- What a FreeBSD guest is told is never right. -/
theorem handedRuns_freeBsd_iff (op : String) (root : DevInfo) (devs : List DevInfo) :
    handedRuns op 0 (root :: devs) = expectedRuns .freeBsd 1 devs ↔ ∀ di ∈ root :: devs, di.isEncrypted = false := by
  constructor
  · intro heq
    have hexp : expectedRuns .freeBsd 1 devs = [] := by
      rw [List.eq_nil_iff_forall_not_mem]
      intro r hr
      obtain ⟨⟨di, i⟩, -, hsome⟩ := List.mem_filterMap.1 hr
      obtain ⟨letter, rfl⟩ := exists_vdDisk_of_mem (heq ▸ hr)
      dsimp only at hsome
      split at hsome
      · have hnode := (Prod.mk.inj (Option.some.inj hsome)).2
        exact vdDisk_ne_guestNode [letter] i di hnode.symm
      · cases hsome
    have hdevs := (expectedRuns_eq_nil _ _ _).1 hexp
    have hroot : root.isEncrypted = false := by
      obtain ⟨c, -, hdrop⟩ := drop_letters (k := 0) (by decide)
      rw [hexp, handedRuns, List.map_eq_nil_iff, handed_cons hdrop] at heq
      cases henc : root.isEncrypted with
      | false => rfl
      | true => simp [henc] at heq
    intro di hdi
    rcases List.mem_cons.1 hdi with rfl | hdi
    · exact hroot
    · exact hdevs di hdi
  · intro hnone
    have hexp : expectedRuns .freeBsd 1 devs = [] :=
      (expectedRuns_eq_nil _ _ _).2 fun di hdi => hnone di (List.mem_cons_of_mem _ hdi)
    rw [hexp, handedRuns, List.map_eq_nil_iff, handed, List.filterMap_eq_nil_iff]
    intro p hp
    simp [hnone p.1 (List.of_mem_zip hp).1]

/-- The devices of a Linux guest. -/
theorem faithful_linux_iff (hroot : h.rootDisk = none) : h.Faithful ↔ ∀ i di, h.devInfos[i]? = some di → di.isEncrypted = true →
    i < 26 ∧ di.vmPartIdx = none ∧ cryptsetupOp di.fsType = cryptsetupOp h.mntDevInfo.fsType := by
  have hattached : h.attached = h.devInfos := by simp [attached, hroot]
  have hexp : h.expected = expectedRuns .linux 0 h.devInfos := by simp [expected, expectedRuns, hroot, guestOs]
  rw [h.faithful_iff_handedRuns, hexp, hattached, handedRuns_eq_iff]
  simp [op]

/-- The devices of a FreeBSD guest. -/
theorem faithful_freeBsd_iff {root : DevInfo} (hroot : h.rootDisk = some root) :
    h.Faithful ↔ ∀ di ∈ root :: h.devInfos, di.isEncrypted = false := by
  have hattached : h.attached = root :: h.devInfos := by simp [attached, hroot]
  have hexp : h.expected = expectedRuns .freeBsd 1 h.devInfos := by simp [expected, expectedRuns, hroot, guestOs]
  rw [h.faithful_iff_handedRuns, hexp, hattached, handedRuns_freeBsd_iff]

/-- The encrypted devices are handed over faithfully exactly when the guest is a Linux one, each encrypted device is among the
first 26 disks and no partition of an image, and is opened by the operation for the mounted device; a guest without encrypted
disks is handed nothing. -/
theorem faithful_iff : h.Faithful ↔ ∀ i di, h.attached[i]? = some di → di.isEncrypted = true →
    h.guestOs = .linux ∧ i < 26 ∧ di.vmPartIdx = none ∧ cryptsetupOp di.fsType = cryptsetupOp h.mntDevInfo.fsType := by
  cases hroot : h.rootDisk with
  | none =>
    have hattached : h.attached = h.devInfos := by simp [attached, hroot]
    have hos : h.guestOs = .linux := by simp [guestOs, hroot]
    rw [h.faithful_linux_iff hroot, hattached]
    simp only [hos, true_and]
  | some root =>
    have hattached : h.attached = root :: h.devInfos := by simp [attached, hroot]
    have hos : h.guestOs = .freeBsd := by simp [guestOs, hroot]
    rw [h.faithful_freeBsd_iff hroot, hattached]
    simp only [hos, List.mem_iff_getElem?, reduceCtorEq, false_and, imp_false, Bool.not_eq_true, forall_exists_index]
    exact forall_comm

end HandOff

/-- A host with an image whose first partition is encrypted. -/
def luksImageHost : (c : SysCall) → c.Answer
  | .mountTable => .ok []
  | .exists _ | .isFile _ | .mediaWritable _ | .krunAddDisk _ _ _ => true
  | .unmountFs _ | .stage _ => .ok ()
  | .blkidProbe _ => some ⟨none, none, none⟩
  | .blkidPartitions _ => some [⟨none, none, some "crypto_LUKS".toList⟩]
  | .openLocked _ _ => .granted ⟨0, 0⟩
  | .fork => .parent
  | .close _ | .dropCtx => ()

/-- A mount of the first partition of an image. -/
def partitionMount : MountConfig where
  diskPath := "/img/disk.img@s1".toList
  common := { homeDir := bytes "/root", profilePath := bytes "/root/.anylinuxfs" }

/-- The encrypted partition of an image is opened as if it were the whole image. -/
theorem HandOff.faithful_false : ¬ ∀ config env claimed rootDisk, (claimDevices config).result env = .ok claimed →
    rootDisk.isSome = DeviceSys.usesFreeBsd claimed.config claimed.mntDevInfo →
    HandOff.Faithful ⟨claimed.config, rootDisk, claimed.devInfos, claimed.mntDevInfo⟩ := by
  intro h
  have hclaim : ((claimDevices partitionMount).result luksImageHost).toOption.any (fun claimed =>
      !DeviceSys.usesFreeBsd claimed.config claimed.mntDevInfo &&
        claimed.devInfos.head?.any (fun di => di.isEncrypted && decide (di.vmPartIdx = some 1))) = true := by
    decide
  cases hres : (claimDevices partitionMount).result luksImageHost with
  | error e =>
    rw [hres] at hclaim
    cases hclaim
  | ok claimed =>
    rw [hres] at hclaim
    simp only [Except.toOption, Option.any_some, Bool.and_eq_true, Bool.not_eq_true'] at hclaim
    obtain ⟨hos, hdi⟩ := hclaim
    obtain ⟨di, hhead, hdi⟩ := (Option.any_eq_true _ _).1 hdi
    obtain ⟨henc, hpart⟩ := Bool.and_eq_true_iff.1 hdi
    have hfaithful := h partitionMount luksImageHost claimed none hres (by rw [hos]; rfl)
    have hnone := ((HandOff.faithful_linux_iff _ rfl).1 hfaithful 0 di (by rw [← List.head?_eq_getElem?]; exact hhead) henc).2.1
    rw [of_decide_eq_true hpart] at hnone
    cases hnone

/-! ## The prompts -/

/-- Up to 26 disks, every encrypted device is handed over. -/
theorem length_handed {k : Nat} {devs : List DevInfo} (hk : k + devs.length ≤ 26) :
    (handed k devs).length = (devs.filter DevInfo.isEncrypted).length := by
  induction devs generalizing k with
  | nil => rfl
  | cons di devs ih =>
    rw [List.length_cons] at hk
    obtain ⟨c, -, hdrop⟩ := drop_letters (k := k) (by omega)
    have hrest := ih (k := k + 1) (by omega)
    rw [handed_cons hdrop]
    cases hd : di.isEncrypted <;> simp [hd, hrest]

/-- The guest has a passphrase if the host has one. -/
theorem pwds_of_host {isAlphanumeric : Char → Bool} {hash : HashOrder (List Char)} {os : HostOs} {hostEnv : HostEnv}
    {config : MountConfig} {vmEnv : List Bytes} (h : prepareVmEnvironment isAlphanumeric hash os hostEnv config = .ok (vmEnv, true)) :
    getPwdsFromEnv vmEnv ≠ [] := by
  obtain ⟨hhas, hhost, -, -⟩ := prepareVmEnvironment_spec h
  obtain ⟨v, hv, hpre⟩ := List.any_eq_true.1 hhas.symm
  exact getPwdsFromEnv_ne_nil.2 ⟨_, hhost v hv hpre, entryPwd_envEntry hpre⟩

/-- If the host has none, the guest has the passphrases of the custom action. -/
theorem pwds_of_action {isAlphanumeric : Char → Bool} {hash : HashOrder (List Char)} {os : HostOs} {hostEnv : HostEnv}
    {config : MountConfig} {vmEnv : List Bytes} (h : prepareVmEnvironment isAlphanumeric hash os hostEnv config = .ok (vmEnv, false))
    (i : Nat) :
    ((getPwdsFromEnv vmEnv).lookup i).isSome = true ↔ ∃ action, config.action = some action ∧ action.SuppliesPwd i := by
  obtain ⟨hhas, -, haction, hall⟩ := prepareVmEnvironment_spec h
  rw [lookup_getPwdsFromEnv]
  constructor
  · rintro ⟨e, he, hpwd⟩
    rcases hall e he with hhost | ⟨action, hact, entry, hentry, rfl⟩
    · have hsome : (entryPwd e).isSome = true := by
        obtain ⟨p, hp, -⟩ := Option.map_eq_some_iff.1 hpwd
        rw [hp]
        rfl
      obtain ⟨v, hv, hpre⟩ := hhost (isPrefixOf_of_entryPwd hsome)
      have hany : hostEnv.any (fun v => passphrasePrefix.isPrefixOf v.1) = true := List.any_eq_true.2 ⟨v, hv, hpre⟩
      rw [hany] at hhas
      cases hhas
    · exact ⟨action, hact, entry, hentry, hpwd⟩
  · rintro ⟨action, hact, entry, hentry, hpwd⟩
    exact ⟨_, haction action hact entry hentry, hpwd⟩

namespace HandOff

variable (h : HandOff)

/-- Whether one passphrase is used for all devices. -/
def reuse : Bool := decide (h.config.common.passphraseConfig = .oneForAll)

theorem callbacks_eq_zero (hnone : (h.attached.filter DevInfo.isEncrypted) = []) (has : Bool) :
    passphraseCallbacks h.attached h.config has = 0 := by
  have hany : h.attached.any DevInfo.isEncrypted = false := by
    rw [List.any_eq_false]
    exact List.filter_eq_nil_iff.1 hnone
  unfold passphraseCallbacks
  split
  · split
    · rw [hnone]
      rfl
    · simp [hany]
  · rfl

/-- What the host expects if it has no passphrase and there is no key file. -/
theorem callbacks_eq (hne : (h.attached.filter DevInfo.isEncrypted) ≠ []) (hk : h.config.keyFile = none) :
    passphraseCallbacks h.attached h.config false =
      if h.reuse = true then 1 else (h.attached.filter DevInfo.isEncrypted).length := by
  have hany : h.attached.any DevInfo.isEncrypted = true := by
    obtain ⟨di, hdi⟩ := List.exists_mem_of_ne_nil _ hne
    exact List.any_eq_true.2 ⟨di, (List.mem_filter.1 hdi).1, (List.mem_filter.1 hdi).2⟩
  cases hp : h.config.common.passphraseConfig <;> simp [passphraseCallbacks, reuse, hk, hany, hp]

theorem callbacks_of_host (has : Bool) (hh : has = true ∨ h.config.keyFile ≠ none) :
    passphraseCallbacks h.attached h.config has = 0 := by
  refine if_neg ?_
  rintro ⟨hf, hk⟩
  rcases hh with hh | hh
  · rw [hf] at hh
    cases hh
  · exact hh hk

/-- There is a passphrase for each of the devices, or one for all of them. -/
def Covered (pwds : List (Nat × Bytes)) : Prop :=
  if h.reuse = true then (pwds.lookup 1).isSome = true
  else ∀ j < (handed 0 h.attached).length, (pwds.lookup (j + 1)).isSome = true

variable {h} {keyFilePath : Option (List Char)} {vmEnv : List Bytes} {env : ∀ c : GuestCall, c.Answer}

/-- The prompts of a guest that has decrypted its devices. -/
theorem program_prompts (hne : handed 0 h.attached ≠ []) (hok : (h.program keyFilePath vmEnv).result env = .ok ()) :
    ((h.program keyFilePath vmEnv).trace env).filterMap GuestCall.prompt? =
      if keyFilePath = none ∧ getPwdsFromEnv vmEnv = [] then
        (List.replicate (if h.reuse = true then 1 else (handed 0 h.attached).length) [true, false]).flatten
      else [] := by
  rw [h.program_eq_decrypt hne] at hok ⊢
  rw [VmDiskContext.decrypt_prompts hok, h.splitOn_handed hne]
  change (if keyFilePath = none ∧ getPwdsFromEnv vmEnv = [] then _ else _) = _
  cases hr : h.reuse <;> simp only [reuse] at hr <;> simp [hr]

/-- A guest that has decrypted its devices with passphrases from its environment has one for each. -/
theorem program_covered (hne : handed 0 h.attached ≠ []) (hok : (h.program none vmEnv).result env = .ok ())
    (hpwds : getPwdsFromEnv vmEnv ≠ []) : h.Covered (getPwdsFromEnv vmEnv) := by
  rw [h.program_eq_decrypt hne] at hok
  have hcov := VmDiskContext.decrypt_covered hok rfl hpwds
  rw [h.splitOn_handed hne] at hcov
  exact hcov

/-- A guest with a passphrase for each device can decrypt them. -/
theorem program_allOpen_of_covered (hne : handed 0 h.attached ≠ []) (hpwds : getPwdsFromEnv vmEnv ≠ [])
    (hcov : h.Covered (getPwdsFromEnv vmEnv)) : (h.program none vmEnv).result VmDiskContext.allOpen = .ok () := by
  rw [h.program_eq_decrypt hne]
  refine VmDiskContext.decrypt_allOpen (.inr ⟨rfl, hpwds, ?_⟩)
  rw [h.splitOn_handed hne]
  exact hcov

/-- The passphrases of the guest are those that the action supplies. -/
theorem covered_iff {isAlphanumeric : Char → Bool} {hash : HashOrder (List Char)} {os : HostOs} {hostEnv : HostEnv}
    (hprep : prepareVmEnvironment isAlphanumeric hash os hostEnv h.config = .ok (vmEnv, false))
    (hcount : (handed 0 h.attached).length = (h.attached.filter DevInfo.isEncrypted).length) (hne : handed 0 h.attached ≠ []) :
    h.Covered (getPwdsFromEnv vmEnv) ↔ ∃ action, h.config.action = some action ∧
      if h.config.common.passphraseConfig = .oneForAll then action.SuppliesPwd 1
      else ∀ j < (h.attached.filter DevInfo.isEncrypted).length, action.SuppliesPwd (j + 1) := by
  have hreuse : h.reuse = true ↔ h.config.common.passphraseConfig = .oneForAll := decide_eq_true_iff
  simp only [Covered, hreuse, hcount]
  split
  · exact pwds_of_action hprep 1
  · constructor
    · intro hall
      have hpos : 0 < (h.attached.filter DevInfo.isEncrypted).length := by
        rw [← hcount]
        exact List.length_pos_iff.2 hne
      obtain ⟨action, hact, -⟩ := (pwds_of_action hprep 1).1 (hall 0 hpos)
      refine ⟨action, hact, fun j hj => ?_⟩
      obtain ⟨action', hact', hsup⟩ := (pwds_of_action hprep (j + 1)).1 (hall j hj)
      rw [hact] at hact'
      cases hact'
      exact hsup
    · rintro ⟨action, hact, hall⟩ j hj
      exact (pwds_of_action hprep (j + 1)).2 ⟨action, hact, hall j hj⟩

theorem pwds_ne_nil_of_covered (hne : handed 0 h.attached ≠ []) (hcov : h.Covered (getPwdsFromEnv vmEnv)) :
    getPwdsFromEnv vmEnv ≠ [] := by
  intro hnil
  rw [hnil, Covered] at hcov
  split at hcov
  · cases hcov
  · exact absurd (hcov 0 (List.length_pos_iff.2 hne)) (by simp)

/-- The host waits for exactly the prompts of the guest unless the passphrases come from the environment of a custom action. -/
theorem promptsAgree_iff (isAlphanumeric : Char → Bool) (os : HostOs) (hostEnv : HostEnv) (h : HandOff)
    (hlen : h.attached.length ≤ 26) :
    h.PromptsAgree isAlphanumeric os hostEnv ↔ ¬ h.ActionSupplies isAlphanumeric os hostEnv := by
  have hcount : (handed 0 h.attached).length = (h.attached.filter DevInfo.isEncrypted).length := length_handed (by omega)
  constructor
  · intro hagree hs
    obtain ⟨hash, ⟨vmEnv, has⟩, hprep⟩ := hs.prepared
    have hhas : has = false := by
      rw [(prepareVmEnvironment_spec hprep).1, List.any_eq_false]
      intro v hv
      simp [hs.noHostPwd v hv]
    subst hhas
    have hfilter : h.attached.filter DevInfo.isEncrypted ≠ [] := by
      obtain ⟨di, hdi, henc⟩ := hs.encrypted
      exact List.ne_nil_of_mem (List.mem_filter.2 ⟨hdi, henc⟩)
    have hne : handed 0 h.attached ≠ [] := by
      rw [← List.length_pos_iff, hcount]
      exact List.length_pos_iff.2 hfilter
    have hcov := (covered_iff hprep hcount hne).2 hs.supplies
    have hpwds := pwds_ne_nil_of_covered hne hcov
    have hok := program_allOpen_of_covered hne hpwds hcov
    have hprompts := hagree hash vmEnv false hprep none (by rw [hs.noKeyFile]; rfl) _ hok
    rw [program_prompts hne hok, if_neg (fun hc => hpwds hc.2), h.callbacks_eq hfilter hs.noKeyFile] at hprompts
    have hpos : 0 < if h.reuse = true then 1 else (h.attached.filter DevInfo.isEncrypted).length := by
      split
      · exact Nat.one_pos
      · exact List.length_pos_iff.2 hfilter
    obtain ⟨n, hn⟩ := Nat.exists_eq_succ_of_ne_zero (Nat.ne_of_gt hpos)
    rw [hn, List.replicate_succ] at hprompts
    cases hprompts
  · intro hs hash vmEnv has hprep keyFilePath hkey env hok
    by_cases hne : handed 0 h.attached = []
    · have hfilter : h.attached.filter DevInfo.isEncrypted = [] := by
        rw [← List.length_eq_zero_iff, ← hcount, hne]
        rfl
      rw [h.program_eq_pure hne, h.callbacks_eq_zero hfilter]
      rfl
    · have hfilter : h.attached.filter DevInfo.isEncrypted ≠ [] := by
        rw [← List.length_pos_iff, ← hcount]
        exact List.length_pos_iff.2 hne
      rw [program_prompts hne hok]
      cases hk : h.config.keyFile with
      | some key =>
        obtain ⟨path, rfl⟩ := Option.isSome_iff_exists.1 (hkey.trans (by rw [hk]; rfl))
        rw [h.callbacks_of_host has (.inr (by simp [hk])), if_neg (by simp)]
        rfl
      | none =>
        rw [hk] at hkey
        obtain rfl := Option.isSome_eq_false_iff.1 hkey |> Option.isNone_iff_eq_none.1
        cases has with
        | true =>
          rw [h.callbacks_of_host true (.inl rfl), if_neg (fun hc => pwds_of_host hprep hc.2)]
          rfl
        | false =>
          by_cases hpwds : getPwdsFromEnv vmEnv = []
          · rw [if_pos ⟨rfl, hpwds⟩, h.callbacks_eq hfilter hk, hcount]
          · -- the guest has used the passphrases of the action
            have hcov := (covered_iff hprep hcount hne).1 (program_covered hne hok hpwds)
            refine absurd ⟨hk, fun v hv => ?_, ?_, ⟨hash, _, hprep⟩, hcov⟩ hs
            · have hany := (prepareVmEnvironment_spec hprep).1
              rw [eq_comm, List.any_eq_false] at hany
              exact Bool.eq_false_iff.2 (hany v hv)
            · obtain ⟨di, hdi⟩ := List.exists_mem_of_ne_nil _ hfilter
              exact ⟨di, (List.mem_filter.1 hdi).1, (List.mem_filter.1 hdi).2⟩

/-- A mount of one encrypted device, with an action or without. -/
def luksHandOff (action : Option CustomActionConfig) : HandOff where
  config := { action := action, common := { homeDir := bytes "/root", profilePath := bytes "/root/.anylinuxfs" } }
  devInfos := [{ fsType := some "crypto_LUKS".toList }]
  mntDevInfo := { fsType := some "crypto_LUKS".toList }

/-- A mount of two encrypted devices and a plain one between them, each encrypted one with a passphrase of its own. -/
def threeDisksHandOff : HandOff where
  config :=
    { common := { homeDir := bytes "/root", profilePath := bytes "/root/.anylinuxfs", passphraseConfig := .askForEach } }
  devInfos := [{ fsType := some "crypto_LUKS".toList }, { fsType := some "ext4".toList }, { fsType := some "crypto_LUKS".toList }]
  mntDevInfo := { fsType := some "crypto_LUKS".toList }

/-- Without an action, the prompts agree. -/
theorem promptsAgree_without_action : threeDisksHandOff.PromptsAgree Char.isAlphanum .linux [] := by
  refine (promptsAgree_iff Char.isAlphanum .linux [] threeDisksHandOff (by decide)).2 ?_
  intro hs
  obtain ⟨action, haction, -⟩ := hs.supplies
  cases haction

/-- An action with a passphrase in its environment. -/
def passphraseAction : CustomActionConfig where
  environment := ["ALFS_PASSPHRASE=x".toList]

/-- The passphrase of a custom action keeps the guest from prompting, while the host waits for a prompt. -/
theorem promptsAgree_false : ¬ ∀ (isAlphanumeric : Char → Bool) (os : HostOs) (hostEnv : HostEnv) (h : HandOff),
    h.attached.length ≤ 26 → h.PromptsAgree isAlphanumeric os hostEnv := by
  intro h
  have hagree := h Char.isAlphanum .linux [] (luksHandOff (some passphraseAction)) (by decide) .listed
    [bytes "ALFS_PASSPHRASE=x"] false rfl none rfl VmDiskContext.allOpen (by decide)
  revert hagree
  decide

end HandOff

end Anylinuxfs
