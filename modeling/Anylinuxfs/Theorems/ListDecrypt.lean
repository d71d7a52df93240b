import Anylinuxfs.Lemmas.Text
import Anylinuxfs.Lemmas.Utf8
import Anylinuxfs.Lib.Correspond
import Anylinuxfs.ListDecrypt
import Anylinuxfs.Theorems.Decrypt

/-!
# The script for the list

Encrypted devices are remembered by their paths and found again as the first device with the path, so the script is right exactly
for whole devices whose path leads to them (`decrypts_iff`). A partition of an image shares the path with the whole image.
-/

namespace Anylinuxfs

open Interact (Prog)
open DiskImage (PlainBlockDevice rawImagePlainBlock)

theorem except_bind_eq_ok {ε α β : Type} {x : Except ε α} {f : α → Except ε β} {b : β} :
    x >>= f = .ok b ↔ ∃ a, x = .ok a ∧ f a = .ok b := by
  cases x with
  | error e => exact ⟨nofun, nofun⟩
  | ok a => exact ⟨fun h => ⟨a, rfl, h⟩, fun ⟨_, ha, h⟩ => Except.ok.inj ha ▸ h⟩

/-! ## What is collected -/

/-- A device is remembered by its path, and its type is what the probe has found or not that of an encrypted file system. -/
structure CollectCall.Ok (call : CollectCall) : Prop where
  path : call.devInfo.path = utf8 call.diskPath
  fsType : isEncryptedFs call.fsType = call.devInfo.isEncrypted

/-- The remembered paths are those of the encrypted devices. -/
structure PvCollector.Ok (pv : PvCollector) : Prop where
  decryptAll : pv.decryptAll = true
  hasEncFilter : pv.hasEncFilter = true
  paths : pv.encPartitions.map utf8 = (pv.devInfos.filter DevInfo.isEncrypted).map DevInfo.path

theorem isEncryptedFs_getD {fsType : Option (List Char)} {other : List Char} (h : isEncryptedFs other = false) :
    isEncryptedFs (fsType.getD other) = fsType.any isEncryptedFs := by
  cases fsType with
  | none => exact h
  | some t => rfl

theorem PvCollector.Ok.tryCollect {pv : PvCollector} {call : CollectCall} (hpv : pv.Ok) (hcall : call.Ok) : (pv.tryCollect call).Ok := by
  obtain ⟨hall, henc, hpaths⟩ := hpv
  unfold PvCollector.tryCollect
  simp only []
  split
  · refine ⟨hall, henc, ?_⟩
    cases hfs : isEncryptedFs call.fsType with
    | true =>
      have hdi : call.devInfo.isEncrypted = true := hcall.fsType ▸ hfs
      simp [hall, hpaths, hdi, hcall.path, List.filter_append]
    | false =>
      have hdi : call.devInfo.isEncrypted = false := hcall.fsType ▸ hfs
      simp [hpaths, hdi, List.filter_append]
  · exact ⟨hall, henc, hpaths⟩

theorem PvCollector.Ok.foldl {pv : PvCollector} {calls : List CollectCall} (hpv : pv.Ok) (hcalls : ∀ call ∈ calls, call.Ok) :
    (calls.foldl PvCollector.tryCollect pv).Ok := by
  induction calls generalizing pv with
  | nil => exact hpv
  | cons call calls ih =>
    exact ih (hpv.tryCollect (hcalls call List.mem_cons_self)) fun c hc => hcalls c (List.mem_cons_of_mem call hc)

/-- All devices of an image have its path. -/
theorem path_of_probeImage {env : ∀ c, SysCall.Answer c} {path : Bytes} {devs : List DevInfo}
    (h : (DevInfo.probeImage path).result env = .ok devs) : devs ≠ [] ∧ ∀ di ∈ devs, di.path = path := by
  unfold DevInfo.probeImage at h
  by_cases hpath : path = []
  · simp [hpath, bail, Prog.result] at h
  · simp only [hpath, if_false, Prog.result_bind_eq_ok] at h
    obtain ⟨probe, -, h⟩ := h
    cases probe with
    | none => cases h
    | some whole =>
      obtain ⟨parts, -, h⟩ := Prog.result_bind_eq_ok.1 h
      cases parts with
      | none => cases h
      | some parts =>
        obtain rfl := Except.ok.inj h
        refine ⟨List.cons_ne_nil _ _, fun di hdi => ?_⟩
        rcases List.mem_cons.1 hdi with rfl | hdi
        · rfl
        · obtain ⟨i, hi, rfl⟩ := List.mem_mapIdx.1 hdi
          rfl

/-- A shown device has the path that it is remembered by. -/
theorem path_of_pv {env : ∀ c, SysCall.Answer c} {dev : ShownDevice} {di : DevInfo}
    (h : (DevInfo.pv (utf8 dev.diskPath) false).result env = .ok di) : di.path = utf8 dev.diskPath := by
  have hraw : ¬rawPrefix.isPrefixOf (utf8 dev.diskPath) := by
    intro hprefix
    obtain ⟨x, hx⟩ := List.isPrefixOf_iff_prefix.1 hprefix
    obtain ⟨rest, hpath, -⟩ := utf8_append_eq_utf8 hx
    have hname : "/dev/rdisk".toList = "/dev/".toList ++ "rdisk".toList := by decide
    rw [ShownDevice.diskPath, hname, List.append_assoc] at hpath
    exact dev.buffered ⟨rest, (List.append_cancel_left hpath).symm⟩
  have hpaths : (devicePaths (utf8 dev.diskPath)).1 = utf8 dev.diskPath := by
    unfold devicePaths
    rw [if_neg hraw]
    split <;> rfl
  unfold DevInfo.pv at h
  by_cases hpath : utf8 dev.diskPath = []
  · simp [hpath, bail, Prog.result] at h
  · simp only [hpath, if_false, Prog.result_bind_eq_ok] at h
    obtain ⟨probe, -, h⟩ := h
    cases probe with
    | none => cases h
    | some probe =>
      obtain ⟨writable, -, h⟩ := Prog.result_bind_eq_ok.1 h
      obtain rfl := Except.ok.inj h
      exact hpaths

theorem ok_blockCalls {fsTypes : List (List Char)} {path imageName : List Char} {ptType : Option (List Char)} {devs : List DevInfo}
    (hne : devs ≠ []) (hdevs : ∀ di ∈ devs, di.path = utf8 path) :
    ∀ call ∈ blockCalls fsTypes (rawImagePlainBlock path imageName ptType devs), call.Ok := by
  obtain ⟨whole, parts, rfl⟩ := List.exists_cons_of_ne_nil hne
  intro call hcall
  cases ptType with
  | none =>
    have hcalls : blockCalls fsTypes (rawImagePlainBlock path imageName none (whole :: parts)) =
        if whole.fsType.getD [] ∈ fsTypes then [⟨whole, imageName, path, whole.fsType.getD []⟩] else [] := rfl
    rw [hcalls, List.mem_ite_nil_right, List.mem_singleton] at hcall
    obtain ⟨-, rfl⟩ := hcall
    exact ⟨hdevs whole List.mem_cons_self, isEncryptedFs_getD rfl⟩
  | some scheme =>
    simp only [blockCalls, rawImagePlainBlock, List.tail_cons] at hcall
    obtain ⟨partition, hpart, hmap⟩ := List.mem_filterMap.1 hcall
    obtain ⟨i, hi, rfl⟩ := List.mem_mapIdx.1 (List.mem_filter.1 hpart).1
    obtain rfl := Option.some.inj hmap
    exact ⟨hdevs _ (List.mem_cons_of_mem whole (List.getElem_mem hi)), isEncryptedFs_getD rfl⟩

theorem ok_add {env : ∀ c, SysCall.Answer c} {fsTypes : List (List Char)} {listing listing' : Listing} {disk : ListedDisk}
    (hpv : listing.pv.Ok) (h : listing.add env fsTypes disk = .ok listing') : listing'.pv.Ok := by
  unfold Listing.add at h
  cases disk with
  | qcow2 path =>
    obtain ⟨devInfo, -, hok⟩ := except_bind_eq_ok.1 h
    obtain rfl := Except.ok.inj hok
    exact hpv
  | image path imageName ptType =>
    obtain ⟨probeDevs, hprobe, hok⟩ := except_bind_eq_ok.1 h
    obtain rfl := Except.ok.inj hok
    obtain ⟨hne, hpath⟩ := path_of_probeImage hprobe
    exact hpv.foldl (ok_blockCalls hne hpath)
  | wholeDevice path diskName =>
    cases hprobe : (DevInfo.probeImage (utf8 path)).result env with
    | error text =>
      simp only [hprobe] at h
      exact Except.ok.inj h ▸ hpv
    | ok probeDevs =>
      obtain ⟨whole, parts, rfl⟩ := List.exists_cons_of_ne_nil (path_of_probeImage hprobe).1
      have hpath := (path_of_probeImage hprobe).2 whole List.mem_cons_self
      simp only [hprobe, List.head?_cons] at h
      cases hfs : whole.fsType with
      | none =>
        simp only [hfs] at h
        exact Except.ok.inj h ▸ hpv
      | some fsType =>
        simp only [hfs] at h
        split at h
        · obtain rfl := Except.ok.inj h
          exact hpv.tryCollect ⟨hpath, by rw [DevInfo.isEncrypted, hfs]; rfl⟩
        · exact Except.ok.inj h ▸ hpv
  | device dev =>
    cases hprobe : (DevInfo.pv (utf8 dev.diskPath) false).result env with
    | error text =>
      simp only [hprobe] at h
      exact Except.ok.inj h ▸ hpv
    | ok devInfo =>
      simp only [hprobe] at h
      obtain rfl := Except.ok.inj h
      exact hpv.tryCollect ⟨path_of_pv hprobe, isEncryptedFs_getD dev.notEncrypted⟩

/-- Whatever is listed, with `decrypt_all` the remembered paths are those of the encrypted devices. -/
theorem ok_listDisks {env : ∀ c, SysCall.Answer c} {fsTypes : List (List Char)} {encPartitions : Option (List (List Char))}
    {disks : List ListedDisk} {listing : Listing} (hall : encPartitions.any fun p => p.head? = some "all".toList)
    (h : listDisks env fsTypes encPartitions disks = .ok listing) : listing.pv.Ok := by
  have hfold : ∀ (disks : List ListedDisk) (start : Listing), start.pv.Ok →
      disks.foldlM (Listing.add env fsTypes) start = .ok listing → listing.pv.Ok := by
    intro disks
    induction disks with
    | nil => exact fun start hstart hok => Except.ok.inj hok ▸ hstart
    | cons disk disks ih =>
      intro start hstart hok
      rw [List.foldlM_cons] at hok
      obtain ⟨next, hnext, hrest⟩ := except_bind_eq_ok.1 hok
      exact ih next (ok_add hstart hnext) hrest
  refine hfold disks _ ⟨hall, ?_, rfl⟩ h
  cases encPartitions with
  | none => cases hall
  | some partitions => rfl

/-! ## The commands -/

section Script

variable {attached : List DevInfo} {di : DevInfo} {part : List Char}

/-- The first device with a path, for a path that is spelt in another way. -/
theorem findIdx?_congr {path path' : Bytes} (h : samePath path path') :
    attached.findIdx? (fun disk => samePath disk.path path) = attached.findIdx? (fun disk => samePath disk.path path') := by
  refine congrArg (fun p => attached.findIdx? p) (funext fun disk => decide_eq_decide.2 ?_)
  have heq : components path = components path' := h
  rw [samePath, samePath, heq]

/-- The first device with a path has it. -/
theorem samePath_of_findIdx? {path : Bytes} {i : Nat} {disk : DevInfo}
    (h : attached.findIdx? (fun disk => samePath disk.path path) = some i) (hdisk : attached[i]? = some disk) :
    samePath disk.path path := by
  obtain ⟨hlen, hpath, -⟩ := List.findIdx?_eq_some_iff_getElem.1 h
  rw [List.getElem?_eq_getElem hlen] at hdisk
  obtain rfl := Option.some.inj hdisk
  exact of_decide_eq_true hpath

/-- The letter of one of the first disks. -/
theorem exists_letter {i : Nat} (hi : i < 26) : ∃ c, diskLetters i = [c] ∧ letters[i]? = some c := by
  obtain ⟨c, hletters, hdrop⟩ := drop_letters hi
  refine ⟨c, hletters, ?_⟩
  rw [← List.head?_drop, hdrop]
  rfl

/-- What is found for a path is the disk with the letter of the first device with the path, and the type of this device. -/
theorem virtDiskToDecrypt_eq_ok {vdev fsType : List Char} :
    virtDiskToDecrypt attached part = .ok (vdev, fsType) ↔
      ∃ i disk, attached.findIdx? (fun disk => samePath disk.path (utf8 part)) = some i ∧ i < 26 ∧ attached[i]? = some disk ∧
        vdev = vdDisk (diskLetters i) ∧ disk.fsType = some fsType := by
  unfold virtDiskToDecrypt
  cases hidx : attached.findIdx? fun disk => samePath disk.path (utf8 part) with
  | none => simp
  | some i =>
    have hlen : i < attached.length := (List.findIdx?_eq_some_iff_findIdx_eq.1 hidx).1
    by_cases hi : i < 26
    · obtain ⟨c, hletters, hget⟩ := exists_letter hi
      simp only [hget, List.getElem?_eq_getElem hlen, Option.bind_some]
      cases hfs : attached[i].fsType with
      | none => simp [hi, hlen, hfs]
      | some t => simp [hi, hlen, hfs, hletters, eq_comm]
    · have hget : letters[i]? = none := List.getElem?_eq_none (Nat.le_of_not_lt hi)
      simp [hget, hi]

/-- A type of an encrypted file system gives a command with its operation. -/
theorem decryptCommand_eq_some {i : Nat} {vdev fsType : List Char} {cmd : DecryptCommand}
    (h : decryptCommand i vdev fsType = some cmd) : isEncryptedFs fsType = true ∧ cmd.op = cryptsetupOp (some fsType) ∧ cmd.vdev = vdev := by
  unfold decryptCommand at h
  split at h
  · next hluks =>
    obtain rfl := Option.some.inj h
    subst hluks
    exact ⟨rfl, rfl, rfl⟩
  · split at h
    · next hbitLocker =>
      obtain rfl := Option.some.inj h
      subst hbitLocker
      exact ⟨rfl, rfl, rfl⟩
    · cases h

theorem exists_decryptCommand {fsType : List Char} (i : Nat) (vdev : List Char) (h : isEncryptedFs fsType = true) :
    ∃ cmd, decryptCommand i vdev fsType = some cmd := by
  unfold decryptCommand
  rcases of_decide_eq_true h with rfl | rfl
  · exact ⟨_, rfl⟩
  · exact ⟨_, rfl⟩

/-- Every command of the script is for a path, and opens the first device with this path. -/
theorem exists_of_mem_decryptFrom {i : Nat} {parts : List (List Char)} {cmds : List DecryptCommand}
    (h : decryptFrom attached i parts = .ok cmds) {cmd : DecryptCommand} (hcmd : cmd ∈ cmds) :
    ∃ part ∈ parts, ∃ k disk fsType, attached.findIdx? (fun disk => samePath disk.path (utf8 part)) = some k ∧ k < 26 ∧
      attached[k]? = some disk ∧ cmd.vdev = vdDisk (diskLetters k) ∧ disk.fsType = some fsType ∧ isEncryptedFs fsType = true ∧
      cmd.op = cryptsetupOp disk.fsType := by
  induction parts generalizing i cmds with
  | nil =>
    obtain rfl := Except.ok.inj h
    cases hcmd
  | cons part parts ih =>
    obtain ⟨⟨vdev, fsType⟩, hfound, h⟩ := except_bind_eq_ok.1 h
    obtain ⟨rest, hrest, h⟩ := except_bind_eq_ok.1 h
    obtain rfl := Except.ok.inj h
    rcases List.mem_append.1 hcmd with hcmd | hcmd
    · obtain ⟨k, disk, hk, hlt, hdisk, rfl, hfs⟩ := virtDiskToDecrypt_eq_ok.1 hfound
      obtain ⟨henc, hop, hvdev⟩ := decryptCommand_eq_some (Option.mem_toList.1 hcmd)
      exact ⟨part, List.mem_cons_self, k, disk, fsType, hk, hlt, hdisk, hvdev, hfs, henc, hfs ▸ hop⟩
    · obtain ⟨p, hp, hspec⟩ := ih hrest hcmd
      exact ⟨p, List.mem_cons_of_mem part hp, hspec⟩

/-- Nothing in the command ends one of its words or the command itself. -/
structure DecryptCommand.Plain (cmd : DecryptCommand) : Prop where
  op : ' ' ∉ cmd.op.toList
  vdev : ' ' ∉ cmd.vdev
  name : ';' ∉ cmd.name

/-- A command can be read back from the beginning of a script. -/
theorem DecryptCommand.text_append_inj {cmd cmd' : DecryptCommand} {rest rest' : List Char} (h : cmd.Plain) (h' : cmd'.Plain)
    (heq : cmd.text ++ rest = cmd'.text ++ rest') : cmd = cmd' ∧ rest = rest' := by
  have hsplit : ∀ (cmd : DecryptCommand) (rest : List Char), cmd.text ++ rest =
      "cryptsetup ".toList ++ (cmd.op.toList ++ ' ' :: (cmd.vdev ++ ' ' :: (cmd.name ++ ';' :: (' ' :: rest)))) := by
    intro cmd rest
    unfold text
    simp only [List.append_assoc]
    rfl
  rw [hsplit, hsplit] at heq
  obtain ⟨hop, hwords⟩ := append_cons_inj h.op h'.op (List.append_cancel_left heq)
  obtain ⟨hvdev, hend⟩ := append_cons_inj h.vdev h'.vdev hwords
  obtain ⟨hname, hrest⟩ := append_cons_inj h.name h'.name hend
  obtain ⟨op, vdev, name⟩ := cmd
  obtain ⟨op', vdev', name'⟩ := cmd'
  obtain ⟨rfl, rfl, rfl⟩ : op = op' ∧ vdev = vdev' ∧ name = name' := ⟨String.toList_inj.1 hop, hvdev, hname⟩
  exact ⟨rfl, (List.cons.inj hrest).2⟩

/-- The script is the text of no other commands. -/
theorem DecryptCommand.flatMap_text_inj {cmds cmds' : List DecryptCommand} (h : ∀ cmd ∈ cmds, cmd.Plain)
    (h' : ∀ cmd ∈ cmds', cmd.Plain) (heq : cmds.flatMap text = cmds'.flatMap text) : cmds = cmds' := by
  have hne : ∀ (cmd : DecryptCommand) (rest : List Char), cmd.text ++ rest ≠ [] := by
    intro cmd rest hnil
    cases hnil
  induction cmds generalizing cmds' with
  | nil =>
    cases cmds' with
    | nil => rfl
    | cons cmd' cmds' => exact absurd heq.symm (hne cmd' _)
  | cons cmd cmds ih =>
    cases cmds' with
    | nil => exact absurd heq (hne cmd _)
    | cons cmd' cmds' =>
      obtain ⟨rfl, hrest⟩ := text_append_inj (h cmd List.mem_cons_self) (h' cmd' List.mem_cons_self) heq
      rw [ih (fun c hc => h c (List.mem_cons_of_mem cmd hc)) (fun c hc => h' c (List.mem_cons_of_mem cmd hc)) hrest]

/-- The commands of the script are plain. -/
theorem plain_of_decryptFrom {i : Nat} {parts : List (List Char)} {cmds : List DecryptCommand}
    (h : decryptFrom attached i parts = .ok cmds) : ∀ cmd ∈ cmds, cmd.Plain := by
  have hnode : ∀ k < 26, ' ' ∉ vdDisk (diskLetters k) := by
    intro k hk
    obtain ⟨c, hletters, hget⟩ := exists_letter hk
    have hblank : ' ' ∉ letters := by decide
    rw [hletters]
    intro hmem
    rcases List.mem_append.1 hmem with hmem | hmem
    · exact absurd hmem (by decide)
    · exact hblank (List.mem_singleton.1 hmem ▸ List.mem_of_getElem? hget)
  have hname : ∀ (name : List Char) (i : Nat), ';' ∉ name → ';' ∉ name ++ Nat.toDigits 10 i := by
    intro name i hn hmem
    rcases List.mem_append.1 hmem with hmem | hmem
    · exact hn hmem
    · exact notMem_toDigits_of_not_isDigit rfl hmem
  induction parts generalizing i cmds with
  | nil =>
    obtain rfl := Except.ok.inj h
    exact nofun
  | cons part parts ih =>
    obtain ⟨⟨vdev, fsType⟩, hfound, h⟩ := except_bind_eq_ok.1 h
    obtain ⟨rest, hrest, h⟩ := except_bind_eq_ok.1 h
    obtain rfl := Except.ok.inj h
    intro cmd hcmd
    rcases List.mem_append.1 hcmd with hcmd | hcmd
    · obtain ⟨k, disk, -, hlt, -, rfl, -⟩ := virtDiskToDecrypt_eq_ok.1 hfound
      have hcmd := Option.mem_toList.1 hcmd
      unfold decryptCommand at hcmd
      split at hcmd
      · obtain rfl := Option.some.inj hcmd
        exact ⟨(by decide : ' ' ∉ "open".toList), hnode k hlt, hname _ i (by decide)⟩
      · split at hcmd
        · obtain rfl := Option.some.inj hcmd
          exact ⟨(by decide : ' ' ∉ "bitlkOpen".toList), hnode k hlt, hname _ i (by decide)⟩
        · cases hcmd
    · exact ih hrest cmd hcmd

/-- The script that is run is the text of these commands, and of no others. -/
theorem decrypts_iff_script {listing : Listing} {encPartitions : Option (List (List Char))} :
    listing.Decrypts encPartitions ↔
      ∃ cmds, decryptScript listing.attached (listing.encPartitions encPartitions) = .ok (cmds.flatMap DecryptCommand.text) ∧
        (∀ cmd ∈ cmds, cmd.Plain) ∧
        ∃ ordered, ordered.Perm cmds ∧ List.Forall₂ (DecryptCommand.Opens listing.attached) listing.encrypted ordered := by
  have hplain : ∀ {cmds : List DecryptCommand}, decryptCommands listing.attached (listing.encPartitions encPartitions) = .ok cmds →
      ∀ cmd ∈ cmds, cmd.Plain := by
    intro cmds hcmds
    cases hparts : listing.encPartitions encPartitions with
    | none =>
      rw [hparts] at hcmds
      obtain rfl := Except.ok.inj hcmds
      exact nofun
    | some parts =>
      rw [hparts] at hcmds
      exact plain_of_decryptFrom hcmds
  constructor
  · rintro ⟨cmds, hcmds, hordered⟩
    exact ⟨cmds, by rw [decryptScript, hcmds]; rfl, hplain hcmds, hordered⟩
  · rintro ⟨cmds, hscript, hcmds, hordered⟩
    cases hrun : decryptCommands listing.attached (listing.encPartitions encPartitions) with
    | error text =>
      rw [decryptScript, hrun] at hscript
      cases hscript
    | ok cmds' =>
      rw [decryptScript, hrun] at hscript
      obtain rfl := DecryptCommand.flatMap_text_inj (hplain hrun) hcmds (Except.ok.inj hscript)
      exact ⟨cmds', hrun, hordered⟩

/-- The script has the right commands for devices that are found by their paths. -/
theorem forall₂_decryptFrom {listing : Listing} {devs : List DevInfo} {parts : List (List Char)} {i : Nat}
    (hparts : parts.map utf8 = devs.map DevInfo.path)
    (hdevs : ∀ di ∈ devs, di.isEncrypted = true ∧ listing.FoundByPath di) :
    ∃ cmds, decryptFrom listing.attached i parts = .ok cmds ∧
      List.Forall₂ (DecryptCommand.Opens listing.attached) devs cmds := by
  induction devs generalizing parts i with
  | nil =>
    obtain rfl := List.map_eq_nil_iff.1 hparts
    exact ⟨[], rfl, .nil⟩
  | cons di devs ih =>
    cases parts with
    | nil => cases hparts
    | cons part parts =>
      obtain ⟨hpath, hparts⟩ := List.cons.inj hparts
      obtain ⟨cmds, hcmds, hopens⟩ := ih hparts (i := i + 1) fun d hd => hdevs d (List.mem_cons_of_mem di hd)
      obtain ⟨henc, hwhole, k, disk, hk, hlt, hdisk, hfs⟩ := hdevs di List.mem_cons_self
      obtain ⟨fsType, htype, hfsEnc⟩ := (Option.any_eq_true _ _).1 henc
      have hfound : virtDiskToDecrypt listing.attached part = .ok (vdDisk (diskLetters k), fsType) :=
        virtDiskToDecrypt_eq_ok.2 ⟨k, disk, hpath ▸ hk, hlt, hdisk, rfl, hfs.trans htype⟩
      obtain ⟨cmd, hcmd⟩ := exists_decryptCommand i (vdDisk (diskLetters k)) hfsEnc
      obtain ⟨-, hop, hvdev⟩ := decryptCommand_eq_some hcmd
      have hsame : samePath disk.path di.path := samePath_of_findIdx? hk hdisk
      obtain ⟨c, hletters, -⟩ := drop_letters hlt
      have hnode : cmd.vdev = guestNode .linux k di := by
        rw [hvdev, hletters]
        exact (vdDisk_eq_guestNode hletters di).2 hwhole
      refine ⟨cmd :: cmds, ?_, .cons ⟨?_, k, disk, hdisk, hsame, hnode⟩ hopens⟩
      · rw [decryptFrom]
        refine except_bind_eq_ok.2 ⟨_, hfound, except_bind_eq_ok.2 ⟨cmds, hcmds, ?_⟩⟩
        rw [hcmd]
        rfl
      · rw [hop, htype]

/-- The name of a further disk is that of an earlier one and a letter. -/
theorem diskLetters_eq_append {j : Nat} (hj : ¬j < 26) : ∃ c, diskLetters j = diskLetters (j / 26 - 1) ++ [c] := by
  obtain ⟨c, -, hdrop⟩ := drop_letters (Nat.mod_lt j (show 0 < 26 by decide))
  refine ⟨c, ?_⟩
  rw [diskLetters, if_neg hj, hdrop]
  rfl

theorem diskLetters_ne_nil (j : Nat) : diskLetters j ≠ [] := by
  by_cases hj : j < 26
  · obtain ⟨c, hletters, -⟩ := exists_letter hj
    simp [hletters]
  · obtain ⟨c, hletters⟩ := diskLetters_eq_append hj
    simp [hletters]

/-- A single letter is that of one of the first disks. -/
theorem lt_of_diskLetters {j : Nat} {c : Char} (h : diskLetters j = [c]) : j < 26 := by
  by_contra hj
  obtain ⟨d, hletters⟩ := diskLetters_eq_append hj
  have hlen := congrArg List.length (hletters.symm.trans h)
  have hpos := List.length_pos_iff.2 (diskLetters_ne_nil (j / 26 - 1))
  simp only [List.length_append, List.length_singleton] at hlen
  omega

/-- The node of a command is that of a disk, so a device on this node is a whole disk with this letter. -/
theorem eq_of_vdDisk_eq_guestNode {j k : Nat} (hk : k < 26) (h : vdDisk (diskLetters k) = guestNode .linux j di) :
    j = k ∧ di.vmPartIdx = none := by
  obtain ⟨c, hletters, hget⟩ := exists_letter hk
  have hcancel : diskLetters j ++ (di.vmPartIdx.map (Nat.toDigits 10)).getD [] = [c] := by
    rw [← hletters]
    exact (List.append_cancel_left ((List.append_assoc _ _ _).symm.trans h.symm))
  obtain ⟨hone, hsuffix⟩ : diskLetters j = [c] ∧ (di.vmPartIdx.map (Nat.toDigits 10)).getD [] = [] := by
    rcases List.append_eq_singleton_iff.1 hcancel with ⟨hnil, -⟩ | hone
    · exact absurd hnil (diskLetters_ne_nil j)
    · exact hone
  have hj := lt_of_diskLetters hone
  refine ⟨?_, ?_⟩
  · obtain ⟨d, hd, hget'⟩ := exists_letter hj
    obtain rfl : d = c := by simpa [hd] using hone
    have hnodup : letters.Nodup := by decide
    exact (List.getElem?_inj (List.getElem?_eq_some_iff.1 hget').1 hnodup).1 (hget'.trans hget.symm)
  · cases hidx : di.vmPartIdx with
    | none => rfl
    | some n =>
      rw [hidx] at hsuffix
      exact absurd hsuffix (Nat.toDigits_ne_nil)

/-- The operation tells the two types apart. -/
theorem fsType_eq_of_cryptsetupOp {t t' : List Char} (ht : isEncryptedFs t = true) (ht' : isEncryptedFs t' = true)
    (h : cryptsetupOp (some t) = cryptsetupOp (some t')) : t = t' := by
  rcases of_decide_eq_true ht with rfl | rfl <;> rcases of_decide_eq_true ht' with rfl | rfl
  · rfl
  · exact absurd h (by decide)
  · exact absurd h (by decide)
  · rfl

end Script

section Listed

variable {env : ∀ c, SysCall.Answer c} {fsTypes : List (List Char)} {encPartitions : Option (List (List Char))}
  {disks : List ListedDisk} {listing : Listing}

theorem encPartitions_eq (hpv : listing.pv.Ok) (hne : listing.pv.devInfos ≠ []) :
    listing.encPartitions encPartitions = some listing.pv.encPartitions := by
  rw [Listing.encPartitions, if_neg hne, if_pos hpv.decryptAll]

/-- A device that the script opens is found by its path. -/
theorem foundByPath_of_decrypts (hpv : listing.pv.Ok) (h : listing.Decrypts encPartitions) {di : DevInfo}
    (hdi : di ∈ listing.encrypted) : listing.FoundByPath di := by
  obtain ⟨cmds, hcmds, ordered, hperm, hopens⟩ := h
  obtain ⟨cmd, hcmd, hop, j, disk, hdisk, hsame, hnode⟩ := Correspond.exists_right hopens hdi
  obtain ⟨hmem, henc⟩ := List.mem_filter.1 hdi
  rw [encPartitions_eq hpv (List.ne_nil_of_mem hmem)] at hcmds
  obtain ⟨part, -, k, disk', fsType, hk, hlt, hdisk', hvdev, hfs, hfsEnc, hop'⟩ :=
    exists_of_mem_decryptFrom hcmds (hperm.mem_iff.1 hcmd)
  obtain ⟨rfl, hwhole⟩ := eq_of_vdDisk_eq_guestNode hlt (hvdev.symm.trans hnode)
  obtain rfl := Option.some.inj (hdisk.symm.trans hdisk')
  have hfirst : samePath disk.path (utf8 part) := samePath_of_findIdx? hk hdisk
  have hpart : samePath (utf8 part) di.path := hfirst.symm.trans hsame
  obtain ⟨t, ht, htEnc⟩ := (Option.any_eq_true _ _).1 henc
  refine ⟨hwhole, j, disk, findIdx?_congr hpart ▸ hk, hlt, hdisk, ?_⟩
  rw [hfs] at hop'
  rw [ht] at hop
  rw [hfs, ht, fsType_eq_of_cryptsetupOp hfsEnc htEnc (hop'.symm.trans hop)]

/-- With `decrypt_all` the script is right exactly when every encrypted device is a whole device to which its path leads. -/
theorem decrypts_iff (hall : encPartitions.any fun p => p.head? = some "all".toList)
    (h : listDisks env fsTypes encPartitions disks = .ok listing) :
    listing.Decrypts encPartitions ↔ ∀ di ∈ listing.encrypted, listing.FoundByPath di := by
  have hpv := ok_listDisks hall h
  constructor
  · exact fun hdecrypts di hdi => foundByPath_of_decrypts hpv hdecrypts hdi
  · intro hfound
    by_cases hne : listing.pv.devInfos = []
    · refine ⟨[], ?_, [], .refl [], ?_⟩
      · rw [Listing.encPartitions, if_pos hne]
        rfl
      · rw [Listing.encrypted, hne]
        exact .nil
    · obtain ⟨cmds, hcmds, hopens⟩ := forall₂_decryptFrom (i := 0) hpv.paths fun di hdi =>
        ⟨(List.mem_filter.1 hdi).2, hfound di hdi⟩
      exact ⟨cmds, by rw [encPartitions_eq hpv hne]; exact hcmds, cmds, .refl cmds, hopens⟩

end Listed

/-- A host where every device is encrypted, and so are the two partitions of every image. -/
def luksHost : ∀ c, SysCall.Answer c
  | .mountTable => .ok []
  | .exists _ | .isFile _ | .mediaWritable _ | .krunAddDisk _ _ _ => true
  | .unmountFs _ | .stage _ => .ok ()
  | .blkidProbe _ => some ⟨none, none, some "crypto_LUKS".toList⟩
  | .blkidPartitions _ => some [⟨none, none, some "crypto_LUKS".toList⟩, ⟨none, none, some "crypto_LUKS".toList⟩]
  | .openLocked _ _ => .granted ⟨0, 0⟩
  | .close _ | .dropCtx => ()
  | .fork => .failed

/-- Two encrypted devices, behind an image in the format qcow2. -/
def luksDevices : List ListedDisk :=
  [.qcow2 "a.qcow2".toList, .device ⟨"disk4s1".toList, [], by decide, by decide⟩, .device ⟨"disk5".toList, [], by decide, by decide⟩]

theorem decrypts_iff_devices : ∃ listing, listDisks luksHost ["crypto_LUKS".toList] (some ["all".toList]) luksDevices = .ok listing ∧
    listing.Decrypts (some ["all".toList]) := by
  obtain ⟨listing, hlisting, hfound⟩ : ∃ listing, listDisks luksHost ["crypto_LUKS".toList] (some ["all".toList]) luksDevices =
      .ok listing ∧ ∀ di ∈ listing.encrypted, di.vmPartIdx = none ∧ ∃ i ∈ [1, 2],
        listing.attached.findIdx? (fun disk => samePath disk.path di.path) = some i ∧
          listing.attached[i]?.map DevInfo.fsType = some di.fsType := ⟨_, rfl, by decide⟩
  refine ⟨listing, hlisting, (decrypts_iff rfl hlisting).2 fun di hdi => ?_⟩
  obtain ⟨hwhole, i, hi, hidx, htype⟩ := hfound di hdi
  obtain ⟨disk, hdisk, hfs⟩ := Option.map_eq_some_iff.1 htype
  have hlt : ∀ i ∈ [1, 2], i < 26 := by decide
  exact ⟨hwhole, i, disk, hidx, hlt i hi, hdisk, hfs⟩

/-- For the two partitions of an image there are two commands for the disk that the image is. -/
theorem decrypts_false : ¬∀ (env : ∀ c, SysCall.Answer c) (fsTypes : List (List Char)) (encPartitions : Option (List (List Char)))
    (disks : List ListedDisk) (listing : Listing), (encPartitions.any fun p => p.head? = some "all".toList) →
      listDisks env fsTypes encPartitions disks = .ok listing → listing.Decrypts encPartitions := by
  intro h
  obtain ⟨listing, hlisting, hidx⟩ : ∃ listing, listDisks luksHost ["crypto_LUKS".toList] (some ["all".toList])
      [.image "disk.img".toList "disk.img".toList (some "gpt".toList)] = .ok listing ∧
        listing.encrypted.map DevInfo.vmPartIdx = [some 1, some 2] := ⟨_, rfl, by decide⟩
  have hdecrypts := h _ _ _ _ listing rfl hlisting
  obtain ⟨di, hdi, hpart⟩ := List.mem_map.1 (hidx ▸ List.mem_cons_self : some 1 ∈ listing.encrypted.map DevInfo.vmPartIdx)
  have hwhole := (foundByPath_of_decrypts (ok_listDisks rfl hlisting) hdecrypts hdi).whole
  rw [hpart] at hwhole
  cases hwhole

end Anylinuxfs
