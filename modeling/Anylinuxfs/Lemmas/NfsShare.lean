import Mathlib.Data.List.TakeWhile
import Anylinuxfs.Lib.FieldLines
import Anylinuxfs.Lib.Pattern
import Anylinuxfs.Lib.Shell
import Anylinuxfs.NfsShare

/-!
# Lemmas about mount scripts

The options of a mount are one word when the user's own options are, and a script around such options is read back exactly when
its share and its mount point mean themselves between double quotes. For a mount point that the program creates itself, this
comes down to the share, the base directory and the last byte of the name.
-/

namespace Anylinuxfs

open Shell

/-! ## Options -/

/-- The script is one simple command whose last two words are the share and the mount point. -/
def Intact (opts vmHost share mountPoint : Bytes) : Prop :=
  words (mountScript opts vmHost share mountPoint) = some (mountWords opts vmHost share mountPoint)

/-- Keys and values that mean themselves outside quotes, and among them a key with at least one byte. -/
def InertOptions (opts : NfsOptions) : Prop :=
  (∀ kv ∈ opts, (∀ c ∈ kv.1, inert c = true) ∧ ∀ c ∈ kv.2, inert c = true) ∧ ∃ kv ∈ opts, kv.1 = bytes "vers"

instance (opts : NfsOptions) : Decidable (InertOptions opts) := inferInstanceAs (Decidable (_ ∧ _))

theorem mem_insert {key value : Bytes} {kv : Bytes × Bytes} :
    ∀ {opts : NfsOptions}, kv ∈ NfsOptions.insert key value opts → kv = (key, value) ∨ kv ∈ opts
  | [], h => Or.inl (List.mem_singleton.1 h)
  | (k, v) :: rest, h => by
    rw [NfsOptions.insert] at h
    split at h
    · exact (List.mem_cons.1 h).imp_right (List.mem_cons_of_mem _)
    · split at h
      · exact List.mem_cons.1 h
      · rcases List.mem_cons.1 h with rfl | h
        · exact Or.inr List.mem_cons_self
        · exact (mem_insert h).imp_right (List.mem_cons_of_mem _)

/-- An insertion keeps every key. -/
theorem exists_key_insert (key value : Bytes) {kv : Bytes × Bytes} :
    ∀ {opts : NfsOptions}, kv ∈ opts → ∃ kv' ∈ NfsOptions.insert key value opts, kv'.1 = kv.1
  | (k, v) :: rest, h => by
    rw [NfsOptions.insert]
    by_cases hk : key = k
    · rw [if_pos hk]
      rcases List.mem_cons.1 h with rfl | h
      · exact ⟨(key, value), List.mem_cons_self, hk⟩
      · exact ⟨kv, List.mem_cons_of_mem _ h, rfl⟩
    rw [if_neg hk]
    by_cases hlt : key < k
    · rw [if_pos hlt]
      exact ⟨kv, List.mem_cons_of_mem _ h, rfl⟩
    rw [if_neg hlt]
    rcases List.mem_cons.1 h with rfl | h
    · exact ⟨(k, v), List.mem_cons_self, rfl⟩
    · obtain ⟨kv', hmem, hkv⟩ := exists_key_insert key value h
      exact ⟨kv', List.mem_cons_of_mem _ hmem, hkv⟩

theorem InertOptions.insert {opts : NfsOptions} (h : InertOptions opts) {key value : Bytes} (hk : ∀ c ∈ key, inert c = true)
    (hv : ∀ c ∈ value, inert c = true) : InertOptions (NfsOptions.insert key value opts) := by
  refine ⟨fun kv hmem => ?_, ?_⟩
  · rcases mem_insert hmem with rfl | hmem
    · exact ⟨hk, hv⟩
    · exact h.1 kv hmem
  · obtain ⟨kv, hmem, hvers⟩ := h.2
    obtain ⟨kv', hmem', hkv⟩ := exists_key_insert key value hmem
    exact ⟨kv', hmem', hkv.trans hvers⟩

theorem InertOptions.extend {items : List (Bytes × Bytes)}
    (hitems : ∀ kv ∈ items, (∀ c ∈ kv.1, inert c = true) ∧ ∀ c ∈ kv.2, inert c = true) {opts : NfsOptions}
    (h : InertOptions opts) : InertOptions (NfsOptions.extend opts items) := by
  unfold NfsOptions.extend
  induction items generalizing opts with
  | nil => exact h
  | cons kv items ih =>
    have hkv := hitems kv List.mem_cons_self
    exact ih (fun kv' hkv' => hitems kv' (List.mem_cons_of_mem kv hkv')) (h.insert hkv.1 hkv.2)

/-- The parts of an option that is split at a character are parts of its text. -/
theorem utf8_splitOnce {sep : Char} {s key value : List Char} (h : splitOnce sep s = some (key, value)) :
    utf8 key ⊆ utf8 s ∧ utf8 value ⊆ utf8 s := by
  unfold splitOnce at h
  split at h
  · cases h
    have hsub : ∀ {a : List Char}, a ⊆ s → utf8 a ⊆ utf8 s := fun ha b hb => by
      obtain ⟨c, hc, hbc⟩ := List.mem_flatMap.1 hb
      exact List.mem_flatMap.2 ⟨c, ha hc, hbc⟩
    exact ⟨hsub (List.takeWhile_subset _), hsub fun c hc => List.dropWhile_subset _ (List.mem_of_mem_tail hc)⟩
  · cases h

/-- A rendered option means itself outside quotes. -/
theorem inert_rendered {kv : Bytes × Bytes} (hk : ∀ c ∈ kv.1, inert c = true) (hv : ∀ c ∈ kv.2, inert c = true) :
    ∀ c ∈ (if kv.2 = [] then kv.1 else kv.1 ++ bytes "=" ++ kv.2), inert c = true := by
  intro c hc
  split at hc
  · exact hk c hc
  · rcases List.mem_append.1 hc with hc | hc
    · rcases List.mem_append.1 hc with hc | hc
      · exact hk c hc
      · exact List.all_eq_true.1 (by decide : (bytes "=").all inert = true) c hc
    · exact hv c hc

/-- Options that mean themselves outside quotes are rendered as one word that does. -/
theorem InertOptions.plain {opts : NfsOptions} (h : InertOptions opts) : Plain opts.toList := by
  refine ⟨fun hnil => ?_, fun c hc => ?_⟩
  · obtain ⟨kv, hmem, hvers⟩ := h.2
    have hpiece : _ ⊆ (bytes ",").intercalate _ := (Pattern.infix_intercalate (List.mem_map_of_mem
      (f := fun kv : Bytes × Bytes => if kv.2 = [] then kv.1 else kv.1 ++ bytes "=" ++ kv.2) hmem)).subset
    rw [NfsOptions.toList] at hnil
    rw [hnil, List.subset_nil] at hpiece
    split at hpiece
    · exact absurd (hvers.symm.trans hpiece) (by decide)
    · rw [hvers, List.append_eq_nil_iff, List.append_eq_nil_iff] at hpiece
      exact absurd hpiece.1.1 (by decide)
  · rcases FieldLines.mem_intercalate hc with hc | ⟨piece, hpiece, hc⟩
    · exact List.all_eq_true.1 (by decide : (bytes ",").all inert = true) c hc
    · obtain ⟨kv, hmem, rfl⟩ := List.mem_map.1 hpiece
      exact inert_rendered (h.1 kv hmem).1 (h.1 kv hmem).2 c hc

theorem mem_insert_self (key value : Bytes) : ∀ opts : NfsOptions, (key, value) ∈ NfsOptions.insert key value opts
  | [] => List.mem_cons_self
  | (k, v) :: rest => by
    rw [NfsOptions.insert]
    split
    · exact List.mem_cons_self
    · split
      · exact List.mem_cons_self
      · exact List.mem_cons_of_mem _ (mem_insert_self key value rest)

theorem mem_extend {kv : Bytes × Bytes} {items : List (Bytes × Bytes)} {opts : NfsOptions} (h : kv ∈ NfsOptions.extend opts items) :
    kv ∈ items ∨ kv ∈ opts := by
  unfold NfsOptions.extend at h
  induction items generalizing opts with
  | nil => exact Or.inr h
  | cons item items ih =>
    rcases ih h with h | h
    · exact Or.inl (List.mem_cons_of_mem _ h)
    · exact (mem_insert h).imp_left fun heq => List.mem_cons.2 (Or.inl heq)

/-- The key of an item is among the keys of the options that are extended by it. -/
theorem exists_key_extend {kv : Bytes × Bytes} {items : List (Bytes × Bytes)} {opts : NfsOptions} (h : kv ∈ items ∨ kv ∈ opts) :
    ∃ kv' ∈ NfsOptions.extend opts items, kv'.1 = kv.1 := by
  unfold NfsOptions.extend
  induction items generalizing opts kv with
  | nil => exact ⟨kv, h.resolve_left List.not_mem_nil, rfl⟩
  | cons item items ih =>
    rcases h with h | h
    · rcases List.mem_cons.1 h with rfl | h
      · exact ih (Or.inr (mem_insert_self _ _ _))
      · exact ih (Or.inl h)
    · obtain ⟨kv', hmem, hkv⟩ := exists_key_insert item.1 item.2 h
      obtain ⟨kv'', hmem', hkv'⟩ := ih (Or.inr hmem)
      exact ⟨kv'', hmem', hkv'.trans hkv⟩

/-- A literal is checked as the list of its characters, so that no text has to be decoded. -/
theorem inert_ofList {l : List Char} (h : (utf8 l).all inert = true) : ∀ c ∈ bytes (String.ofList l), inert c = true := by
  rw [bytes, String.toList_ofList]
  exact List.all_eq_true.1 h

theorem inertOptions_default (os : HostOs) : InertOptions (NfsOptions.default os) := by
  refine ⟨fun kv hkv => ?_, exists_key_extend (show (bytes "vers", bytes "3") ∈ _ ∨ _ from Or.inl (by simp))⟩
  have hitem := (mem_extend hkv).resolve_right List.not_mem_nil
  clear hkv
  revert kv
  cases os
  all_goals
    simp only [nolockKey, List.cons_append, List.nil_append, List.forall_mem_cons]
    and_intros
    all_goals first | exact inert_ofList rfl | exact nofun

/-- The options of a mount mean themselves outside quotes when the options of the user do. -/
theorem inertOptions_new (os : HostOs) {config : MountConfig} (hopts : ∀ s ∈ config.nfsOptions, ∀ c ∈ utf8 s, inert c = true)
    (vmHost : Bytes) (dev : DevInfo) (sharedVolume : Bool) :
    InertOptions (NfsShareSetup.new os config vmHost dev sharedVolume).nfsOpts := by
  simp only [NfsShareSetup.new]
  refine InertOptions.extend (fun kv hkv => ?_) ?_
  · obtain ⟨s, hs, rfl⟩ := List.mem_map.1 hkv
    cases hsplit : splitOnce '=' s with
    | none => exact ⟨hopts s hs, by simp⟩
    | some parts =>
      obtain ⟨hkey, hvalue⟩ := utf8_splitOnce hsplit
      exact ⟨fun c hc => hopts s hs c (hkey hc), fun c hc => hopts s hs c (hvalue hc)⟩
  · have hdefault := inertOptions_default os
    have hne : bytes "vers" ≠ nolockKey os := by cases os <;> decide
    split
    · obtain ⟨kv, hmem, hvers⟩ := hdefault.2
      refine ⟨fun kv hkv => hdefault.1 kv (List.mem_of_mem_filter hkv), kv, List.mem_filter.2 ⟨hmem, ?_⟩, hvers⟩
      rw [hvers]
      exact decide_eq_true hne
    · exact hdefault

/-! ## Scripts -/

/-- A script is read as a mount of the share exactly when the share means itself between double quotes, and then at the word that
the mount point is read as. -/
theorem words_mountScript_iff {opts : Bytes} (hopts : Plain opts) {vmHost share mountPoint target : Bytes} :
    words (mountScript opts vmHost share mountPoint) = some (mountWords opts vmHost share target) ↔
      Literal (remote vmHost share) ∧ words (Byte.dquote :: (mountPoint ++ [Byte.dquote])) = some [target] := by
  have hscript : mountScript opts vmHost share mountPoint =
      bytes "mount" ++ Byte.space :: (bytes "-t" ++ Byte.space :: (bytes "nfs" ++ Byte.space :: (bytes "-o" ++ Byte.space ::
        (opts ++ Byte.space :: (Byte.dquote :: (remote vmHost share ++ Byte.dquote :: Byte.space :: Byte.dquote ::
          (mountPoint ++ [Byte.dquote]))))))) := by
    have h1 : bytes "mount -t nfs -o " = bytes "mount" ++ Byte.space :: (bytes "-t" ++ Byte.space :: (bytes "nfs" ++
        Byte.space :: (bytes "-o" ++ [Byte.space]))) := by decide
    have h2 : bytes " \"" = [Byte.space, Byte.dquote] := by decide
    have h3 : bytes "\" \"" = [Byte.dquote, Byte.space, Byte.dquote] := by decide
    have h4 : bytes "\"" = [Byte.dquote] := by decide
    rw [mountScript, h1, h2, h3, h4]
    simp
  have hmount : Plain (bytes "mount") := plain_of_all (by decide) (by decide)
  have ht : Plain (bytes "-t") := plain_of_all (by decide) (by decide)
  have hnfs : Plain (bytes "nfs") := plain_of_all (by decide) (by decide)
  have ho : Plain (bytes "-o") := plain_of_all (by decide) (by decide)
  rw [hscript, words_plain_word hmount, words_plain_word ht, words_plain_word hnfs, words_plain_word ho, words_plain_word hopts,
    ← words_dquote_first_iff, mountWords]
  simp only [Option.map_map, Option.map_eq_some_iff, Function.comp_apply, List.cons.injEq, true_and, exists_eq_right]

/-- A script is read back exactly when the share and the mount point mean themselves between double quotes. -/
theorem intact_iff {opts : Bytes} (hopts : Plain opts) (vmHost share mountPoint : Bytes) :
    Intact opts vmHost share mountPoint ↔ Literal (remote vmHost share) ∧ Literal mountPoint := by
  rw [Intact, words_mountScript_iff hopts, words_dquote_iff]

/-! ## Paths that are joined -/

/-- What is put behind a slash means itself whatever stands before the slash. -/
theorem literal_append_slash (base name : Bytes) : Literal (base ++ slash :: name) ↔ literalBefore slash base = true ∧ Literal name := by
  have hslash : ∀ q, literalByte slash q = true := literalByte_of_ordinary (by decide)
  rw [Literal, literalBefore_append, List.headD_cons, Bool.and_eq_true, literalBefore, hslash, Bool.true_and]
  rfl

/-- A path that means itself does so below a directory that does. -/
theorem literal_pathJoin {base name : Bytes} (hbase : Literal base) (hname : Literal name) : Literal (pathJoin base name) := by
  unfold pathJoin joinAt
  split
  case isTrue => exact hname
  case isFalse =>
    split
    case isTrue hend =>
      rcases List.eq_nil_or_concat base with rfl | ⟨upper, c, rfl⟩
      · exact hname
      · -- the separator at the end of the directory is the slash
        have hc : c = slash := by simpa using hend
        rw [List.concat_eq_append, hc] at hbase ⊢
        rw [List.append_assoc]
        exact (literal_append_slash upper name).2 ⟨((literal_append_slash upper []).1 hbase).1, hname⟩
    case isFalse => exact (literal_append_slash base name).2 ⟨literalBefore_of_literal hbase (by decide), hname⟩

/-! ## The mount point that the program creates -/

theorem lastPiece_suffix (sep : UInt8) (s : Bytes) : ∃ pre, s = pre ++ lastPiece sep s := by
  refine ⟨(s.reverse.dropWhile (· ≠ sep)).reverse, ?_⟩
  rw [lastPiece, ← List.reverse_append, List.takeWhile_append_dropWhile, List.reverse_reverse]

theorem sep_not_mem_lastPiece (sep : UInt8) (s : Bytes) : sep ∉ lastPiece sep s := by
  intro h
  rw [lastPiece, List.mem_reverse] at h
  simpa using List.mem_takeWhile_imp h

/-- The name of a created mount point is literal when the share is. -/
theorem literal_mountName {vmHost share : Bytes} (h : Literal (remote vmHost share)) : Literal (mountName share) := by
  unfold mountName
  split
  · decide
  · obtain ⟨pre, hpre⟩ := lastPiece_suffix slash share
    unfold Literal remote at *
    rw [hpre, ← List.append_assoc, literalBefore_append, Bool.and_eq_true] at h
    exact h.2

theorem slash_not_mem_mountName (share : Bytes) : slash ∉ mountName share := by
  unfold mountName
  split
  · decide
  · exact sep_not_mem_lastPiece slash share

/-- The digits of a number are ordinary bytes. -/
theorem ordinary_decimal (n : Nat) : ∀ c ∈ decimal n, ordinary c = true := by
  intro c hc
  obtain ⟨d, hd, hcd⟩ := List.mem_flatMap.1 hc
  have hdigit := Nat.isDigit_of_mem_toDigits (by decide) (by decide) hd
  have hall : "0123456789".toList.all (fun d => (String.utf8EncodeChar d).all ordinary) = true := by decide
  refine List.all_eq_true.1 (List.all_eq_true.1 hall d ?_) c hcd
  simp only [Char.isDigit, Bool.and_eq_true, decide_eq_true_eq] at hdigit
  obtain ⟨hlo, hhi⟩ := hdigit
  have hn : d = Char.ofNat d.toNat := (Char.ofNat_toNat d).symm
  have hlo' : 48 ≤ d.toNat := hlo
  have hhi' : d.toNat ≤ 57 := hhi
  rw [hn]
  generalize d.toNat = k at hlo' hhi'
  have hk : k = 48 ∨ k = 49 ∨ k = 50 ∨ k = 51 ∨ k = 52 ∨ k = 53 ∨ k = 54 ∨ k = 55 ∨ k = 56 ∨ k = 57 := by omega
  rcases hk with rfl | rfl | rfl | rfl | rfl | rfl | rfl | rfl | rfl | rfl <;> decide

/-- The base directory ends in its own fixed name. -/
theorem volumeBaseDir_eq (os : HostOs) (config : MountConfig) : ∃ pre, volumeBaseDir os config = pre ++ mountBase os := by
  unfold volumeBaseDir pathJoin joinAt
  generalize (if config.common.sudoUid.isSome then bytes "/" else config.common.homeDir) = base
  rw [if_neg (by cases os <;> decide)]
  split
  · exact ⟨base, rfl⟩
  · exact ⟨base ++ [slash], by simp⟩

/-- Whether the base directory means itself does not depend on what stands behind it. -/
theorem literalBefore_volumeBaseDir (os : HostOs) (config : MountConfig) (q : UInt8) :
    literalBefore q (volumeBaseDir os config) = true ↔ Literal (volumeBaseDir os config) := by
  obtain ⟨pre, hpre⟩ := volumeBaseDir_eq os config
  have hname : ∀ q, literalBefore q (mountBase os) = true := literalBefore_of_ordinary (List.all_eq_true.1 (by cases os <;> decide))
  have hhead : ∀ q, (mountBase os).headD q = (mountBase os).headD Byte.dquote := by cases os <;> exact fun _ => rfl
  rw [Literal, hpre, literalBefore_append, literalBefore_append, hname, hname, hhead q]

/-- A path that is joined to the base directory is put behind a slash. -/
theorem pathJoin_volumeBaseDir (os : HostOs) (config : MountConfig) {name : Bytes} (hname : name.head? ≠ some slash) :
    pathJoin (volumeBaseDir os config) name = volumeBaseDir os config ++ slash :: name := by
  obtain ⟨pre, hpre⟩ := volumeBaseDir_eq os config
  have hlast : (mountBase os).getLast? ≠ some slash := by cases os <;> decide
  have hne : mountBase os ≠ [] := by cases os <;> decide
  unfold pathJoin joinAt
  rw [if_neg hname, if_neg, hpre]
  rintro (h | h)
  · exact hne (List.append_eq_nil_iff.1 (hpre ▸ h)).2
  · rw [hpre, List.getLast?_append_of_ne_nil _ hne] at h
    exact hlast h

/-- A path under the base directory means itself exactly when both its parts do. -/
theorem literal_join_iff (os : HostOs) (config : MountConfig) {name : Bytes} (hname : name.head? ≠ some slash) :
    Literal (pathJoin (volumeBaseDir os config) name) ↔ Literal (volumeBaseDir os config) ∧ Literal name := by
  rw [pathJoin_volumeBaseDir os config hname, literal_append_slash, literalBefore_volumeBaseDir]

/-- A mount point that the program creates means itself between double quotes exactly when the base directory does and, if a
number had to be appended, the name does not end in a dollar sign. -/
theorem literal_mountPoint_iff (os : HostOs) {setup : NfsShareSetup} (hnone : setup.config.customMountPoint = none)
    (hremote : Literal (remote setup.vmHost setup.sharePath)) (taken : Nat) :
    Literal (setup.mountPoint os taken) ↔
      Literal (volumeBaseDir os setup.config) ∧ (taken ≠ 0 → (mountName setup.sharePath).getLast? ≠ some Byte.dollar) := by
  have hname := literal_mountName hremote
  have hhead : (mountName setup.sharePath).head? ≠ some slash := fun h =>
    slash_not_mem_mountName setup.sharePath (List.mem_of_head? h)
  have hne : mountName setup.sharePath ≠ [] := by
    unfold mountName
    split
    · decide
    · assumption
  simp only [NfsShareSetup.mountPoint, hnone]
  by_cases htaken : taken = 0
  · rw [if_pos htaken, literal_join_iff os _ hhead]
    exact ⟨fun h => ⟨h.1, fun hn => absurd htaken hn⟩, fun h => ⟨h.1, hname⟩⟩
  · have hhead' : (mountName setup.sharePath ++ bytes "-" ++ decimal taken).head? ≠ some slash := by
      obtain ⟨c, rest, hc⟩ := List.exists_cons_of_ne_nil hne
      rw [hc] at hhead ⊢
      exact hhead
    have hnumber : ∀ q, literalBefore q (decimal taken) = true := literalBefore_of_ordinary (ordinary_decimal taken)
    have hdash : bytes "-" = [0x2d] := by decide
    rw [if_neg htaken, literal_join_iff os _ hhead']
    refine and_congr_right fun _ => ?_
    rw [Literal, List.append_assoc, literalBefore_append, hdash, List.singleton_append, literalBefore, hnumber,
      literalByte_of_ordinary (by decide), List.headD_cons, Bool.and_true, Bool.and_true,
      literalBefore_iff_of_literal hname (by decide)]
    exact ⟨fun h _ => h, fun h => h htaken⟩

end Anylinuxfs
