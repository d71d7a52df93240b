import Mathlib.Data.List.Induction
import Mathlib.Data.List.Perm.Basic
import Anylinuxfs.Lemmas.Decrypt

/-!
# The passphrases of an environment

`get_pwds_from_env` reads every variable whose name begins with `ALFS_PASSPHRASE`, and takes what is not a number behind it for
the number 1. So several variables can be meant for one number, and the last one that is enumerated counts.
-/

namespace Anylinuxfs

/-! ## Numbers -/

/-- A number in decimal digits. -/
def isDecimal (s : Bytes) : Bool := s ≠ [] ∧ s.all (fun b => 0x30 ≤ b ∧ b ≤ 0x39)

/-- The number that decimal digits stand for. -/
def decimalValue (digits : Bytes) : Nat := digits.foldl (fun n b => 10 * n + (b.toNat - 0x30)) 0

/-- The number of the device that a passphrase is for, from what is behind the prefix. -/
def deviceNumber (suffix : Bytes) : Nat := if suffix = [] then 1 else decimalValue suffix

/-! ## What is asked of the passphrases -/

/-- What is asked of `get_pwds_from_env`. -/
structure PassphraseLaw (env : List Bytes) : Prop where
  order : ∀ env', env'.Perm env → ∀ i, (getPwdsFromEnv env').lookup i = (getPwdsFromEnv env).lookup i
  numbered : ∀ entry ∈ env, ∀ digits pwd, isDecimal digits = true →
    splitEntry entry = some (passphrasePrefix ++ digits, pwd) → (getPwdsFromEnv env).lookup (decimalValue digits) = some pwd
  others : ∀ entry ∈ env, ∀ suffix pwd, splitEntry entry = some (passphrasePrefix ++ suffix, pwd) → suffix ≠ [] →
    isDecimal suffix = false → ∀ i, (getPwdsFromEnv [entry]).lookup i = none

/-- Nothing or a number of 64 bits is behind the prefix, and variables for one device have the same value. -/
structure PlainlyNumbered (env : List Bytes) : Prop where
  suffixes : ∀ entry ∈ env, ∀ suffix pwd, splitEntry entry = some (passphrasePrefix ++ suffix, pwd) →
    suffix = [] ∨ (isDecimal suffix = true ∧ decimalValue suffix < 2 ^ 64)
  agree : ∀ entry ∈ env, ∀ entry' ∈ env, ∀ suffix suffix' pwd pwd',
    splitEntry entry = some (passphrasePrefix ++ suffix, pwd) → splitEntry entry' = some (passphrasePrefix ++ suffix', pwd') →
      deviceNumber suffix = deviceNumber suffix' → pwd = pwd'

section

variable {env : List Bytes} {entry suffix pwd : Bytes} {i : Nat}

/-! ## One variable -/

theorem entryPwd_eq_some : entryPwd entry = some (i, pwd) ↔
    ∃ suffix, splitEntry entry = some (passphrasePrefix ++ suffix, pwd) ∧ (parseIndex suffix).getD 1 = i := by
  unfold entryPwd
  cases splitEntry entry with
  | none => simp
  | some kv =>
    obtain ⟨key, value⟩ := kv
    by_cases hkey : passphrasePrefix.isPrefixOf key = true
    · obtain ⟨suffix, rfl⟩ := List.isPrefixOf_iff_prefix.1 hkey
      simp only [hkey, if_true, List.drop_left, Option.some.injEq, Prod.mk.injEq, List.append_cancel_left_eq]
      constructor
      · rintro ⟨rfl, rfl⟩
        exact ⟨suffix, ⟨rfl, rfl⟩, rfl⟩
      · rintro ⟨_, ⟨rfl, rfl⟩, rfl⟩
        exact ⟨rfl, rfl⟩
    · dsimp only
      rw [if_neg hkey]
      refine iff_of_false nofun ?_
      rintro ⟨suffix, hsplit, -⟩
      obtain ⟨rfl, -⟩ := Prod.mk.inj (Option.some.inj hsplit)
      exact hkey (List.isPrefixOf_iff_prefix.2 (List.prefix_append _ _))

theorem parseIndex_of_isDecimal (h : isDecimal suffix = true) :
    parseIndex suffix = if decimalValue suffix < 2 ^ 64 then some (decimalValue suffix) else none := by
  have hparts : suffix ≠ [] ∧ suffix.all (fun b => 0x30 ≤ b ∧ b ≤ 0x39) := of_decide_eq_true h
  have hsign : suffix.head? ≠ some 0x2b := by
    intro hhead
    have hdigit := List.all_eq_true.1 hparts.2 0x2b (List.mem_of_mem_head? hhead)
    exact absurd hdigit (by decide)
  simp only [parseIndex, if_neg hsign, if_pos hparts]
  rfl

/-- The number of a variable that is named as it should be. -/
theorem parseIndex_getD (h : suffix = [] ∨ (isDecimal suffix = true ∧ decimalValue suffix < 2 ^ 64)) :
    (parseIndex suffix).getD 1 = deviceNumber suffix := by
  rcases h with rfl | ⟨hdec, hlt⟩
  · rfl
  · have hne : suffix ≠ [] := by
      rintro rfl
      cases hdec
    rw [parseIndex_of_isDecimal hdec, if_pos hlt, deviceNumber, if_neg hne, Option.getD_some]

/-- Numbers of more than 64 bits are never used. -/
theorem parseIndex_getD_lt (suffix : Bytes) : (parseIndex suffix).getD 1 < 2 ^ 64 := by
  cases h : parseIndex suffix with
  | none => decide
  | some n =>
    simp only [parseIndex] at h
    generalize (if suffix.head? = some 0x2b then suffix.tail else suffix) = digits at h
    split at h
    · split at h
      case isTrue hlt => exact Option.some.inj h ▸ hlt
      case isFalse => cases h
    · cases h

/-! ## All variables -/

theorem lookup_insertPwd_self {pwds : List (Nat × Bytes)} (h : entryPwd entry = some (i, pwd)) :
    (insertPwd pwds entry).lookup i = some pwd := by
  simp [insertPwd, h]

/-- A passphrase is that of a variable. -/
theorem exists_entry_of_lookup (h : (getPwdsFromEnv env).lookup i = some pwd) : ∃ entry ∈ env, entryPwd entry = some (i, pwd) := by
  induction env using List.reverseRecOn with
  | nil => cases h
  | append_singleton env entry ih =>
    rw [getPwdsFromEnv, List.foldl_append, List.foldl_cons, List.foldl_nil] at h
    have hrest : (getPwdsFromEnv env).lookup i = some pwd → ∃ e ∈ env ++ [entry], entryPwd e = some (i, pwd) := by
      intro hlookup
      obtain ⟨e, he, hpwd⟩ := ih hlookup
      exact ⟨e, List.mem_append_left _ he, hpwd⟩
    unfold insertPwd at h
    split at h
    · exact hrest h
    · next idx value hentry =>
      rw [List.lookup_cons] at h
      split at h
      · next heq =>
        obtain rfl := eq_of_beq heq
        obtain rfl := Option.some.inj h
        exact ⟨entry, by simp, hentry⟩
      · next hne =>
        rw [lookup_filter_ne (by simpa using hne)] at h
        exact hrest h

/-- The passphrases do not depend on the order exactly when variables with the same number have the same value. -/
theorem order_iff : (∀ env', env'.Perm env → ∀ i, (getPwdsFromEnv env').lookup i = (getPwdsFromEnv env).lookup i) ↔
    ∀ entry ∈ env, ∀ entry' ∈ env, ∀ i pwd pwd', entryPwd entry = some (i, pwd) → entryPwd entry' = some (i, pwd') → pwd = pwd' := by
  constructor
  · intro h
    -- the variable that is enumerated last gives the passphrase
    have hlast : ∀ entry ∈ env, ∀ i pwd, entryPwd entry = some (i, pwd) → (getPwdsFromEnv env).lookup i = some pwd := by
      intro entry hentry i pwd hpwd
      obtain ⟨s, t, rfl⟩ := List.mem_iff_append.1 hentry
      have hperm : (s ++ t ++ [entry]).Perm (s ++ entry :: t) :=
        (List.perm_append_singleton entry (s ++ t)).trans List.perm_middle.symm
      rw [← h _ hperm i, getPwdsFromEnv, List.foldl_append, List.foldl_cons, List.foldl_nil, lookup_insertPwd_self hpwd]
    intro entry hentry entry' hentry' i pwd pwd' hpwd hpwd'
    exact Option.some.inj ((hlast entry hentry i pwd hpwd).symm.trans (hlast entry' hentry' i pwd' hpwd'))
  · intro h env' hperm i
    cases hlookup : (getPwdsFromEnv env).lookup i with
    | none =>
      cases hlookup' : (getPwdsFromEnv env').lookup i with
      | none => rfl
      | some pwd =>
        obtain ⟨entry, hentry, hpwd⟩ := exists_entry_of_lookup hlookup'
        have hsome := lookup_getPwdsFromEnv.2 ⟨entry, hperm.mem_iff.1 hentry, congrArg (Option.map Prod.fst) hpwd⟩
        rw [hlookup] at hsome
        cases hsome
    | some pwd =>
      obtain ⟨entry, hentry, hpwd⟩ := exists_entry_of_lookup hlookup
      have hsome := lookup_getPwdsFromEnv.2 ⟨entry, hperm.mem_iff.2 hentry, congrArg (Option.map Prod.fst) hpwd⟩
      obtain ⟨pwd', hlookup'⟩ := Option.isSome_iff_exists.1 hsome
      obtain ⟨entry', hentry', hpwd'⟩ := exists_entry_of_lookup hlookup'
      rw [hlookup', h entry hentry entry' (hperm.mem_iff.1 hentry') i pwd pwd' hpwd hpwd']

end

/-- The passphrases of an environment do not depend on its order, each is that of its number, and no other variable is a
passphrase, exactly when nothing but a number of 64 bits is ever behind the prefix and no two variables for one device differ. -/
theorem passphraseLaw_iff (env : List Bytes) : PassphraseLaw env ↔ PlainlyNumbered env := by
  constructor
  · intro h
    have hsuffix : ∀ entry ∈ env, ∀ suffix pwd, splitEntry entry = some (passphrasePrefix ++ suffix, pwd) →
        suffix = [] ∨ (isDecimal suffix = true ∧ decimalValue suffix < 2 ^ 64) := by
      intro entry hentry suffix pwd hsplit
      refine or_iff_not_imp_left.2 fun hne => ?_
      have hdec : isDecimal suffix = true := by
        by_contra hdec
        have hnone := h.others entry hentry suffix pwd hsplit hne (Bool.not_eq_true _ ▸ hdec) ((parseIndex suffix).getD 1)
        have hself : (getPwdsFromEnv [entry]).lookup ((parseIndex suffix).getD 1) = some pwd :=
          lookup_insertPwd_self (entryPwd_eq_some.2 ⟨suffix, hsplit, rfl⟩)
        exact absurd (hnone.symm.trans hself) nofun
      refine ⟨hdec, ?_⟩
      obtain ⟨entry', -, hpwd⟩ := exists_entry_of_lookup (h.numbered entry hentry suffix pwd hdec hsplit)
      obtain ⟨suffix', -, hindex⟩ := entryPwd_eq_some.1 hpwd
      exact hindex ▸ parseIndex_getD_lt suffix'
    refine ⟨hsuffix, ?_⟩
    intro entry hentry entry' hentry' suffix suffix' pwd pwd' hsplit hsplit' hnumber
    have hindex := parseIndex_getD (hsuffix entry hentry suffix pwd hsplit)
    have hindex' := parseIndex_getD (hsuffix entry' hentry' suffix' pwd' hsplit')
    exact order_iff.1 h.order entry hentry entry' hentry' _ _ _ (entryPwd_eq_some.2 ⟨suffix, hsplit, hindex.trans hnumber⟩)
      (entryPwd_eq_some.2 ⟨suffix', hsplit', hindex'⟩)
  · rintro ⟨hsuffix, hagree⟩
    have hsame : ∀ entry ∈ env, ∀ entry' ∈ env, ∀ i pwd pwd', entryPwd entry = some (i, pwd) → entryPwd entry' = some (i, pwd') →
        pwd = pwd' := by
      intro entry hentry entry' hentry' i pwd pwd' hpwd hpwd'
      obtain ⟨suffix, hsplit, rfl⟩ := entryPwd_eq_some.1 hpwd
      obtain ⟨suffix', hsplit', hindex⟩ := entryPwd_eq_some.1 hpwd'
      refine hagree entry hentry entry' hentry' suffix suffix' pwd pwd' hsplit hsplit' ?_
      rw [← parseIndex_getD (hsuffix entry hentry suffix pwd hsplit), ← hindex,
        parseIndex_getD (hsuffix entry' hentry' suffix' pwd' hsplit')]
    refine ⟨order_iff.2 hsame, ?_, ?_⟩
    · intro entry hentry digits pwd hdec hsplit
      have hne : digits ≠ [] := by
        rintro rfl
        cases hdec
      have hindex := parseIndex_getD (hsuffix entry hentry digits pwd hsplit)
      rw [deviceNumber, if_neg hne] at hindex
      have hpwd := entryPwd_eq_some.2 ⟨digits, hsplit, hindex⟩
      obtain ⟨pwd', hlookup⟩ := Option.isSome_iff_exists.1
        (lookup_getPwdsFromEnv.2 ⟨entry, hentry, congrArg (Option.map Prod.fst) hpwd⟩)
      obtain ⟨entry', hentry', hpwd'⟩ := exists_entry_of_lookup hlookup
      rw [hlookup, hsame entry hentry entry' hentry' _ pwd pwd' hpwd hpwd']
    · intro entry hentry suffix pwd hsplit hne hdec
      rcases hsuffix entry hentry suffix pwd hsplit with h | ⟨h, -⟩
      · exact absurd h hne
      · rw [h] at hdec
        cases hdec

/-- Two variables for the first device. -/
theorem passphraseLaw_false : ¬ ∀ env, PassphraseLaw env := by
  intro h
  have horder := (h [bytes "ALFS_PASSPHRASE=a", bytes "ALFS_PASSPHRASE1=b"]).order
  have heq := order_iff.1 horder (bytes "ALFS_PASSPHRASE=a") List.mem_cons_self (bytes "ALFS_PASSPHRASE1=b") (by simp) 1
    (bytes "a") (bytes "b") (by decide) (by decide)
  exact absurd heq (by decide)

end Anylinuxfs
