import Anylinuxfs.Lemmas.Decrypt
import Anylinuxfs.Lemmas.Utf8

/-!
# The environment of a custom action

`prepare_environment` puts the texts of `environment` and the variables of the host that the action uses behind one another. It
succeeds exactly when every variable that the action uses is found. A variable that both `environment` and the host define is
in the list twice, and whose value the guest sees depends on what reads the list. A name with an equals sign is a second way to
go wrong: `getenv` may find a variable for it, and the entry is read under another name.
-/

namespace Anylinuxfs

/-- Names as `env::vars_os` gives them: they are not empty, and have no zero byte and no equals sign behind their first byte. -/
def HostEnv.Valid (hostEnv : HostEnv) : Prop := ∀ v ∈ hostEnv, v.1 ≠ [] ∧ 0 ∉ v.1 ∧ equalsSign ∉ v.1.tail

/-- No two entries of an environment bind a name to different values. -/
def BindingsAgree (entries : List Bytes) : Prop :=
  ∀ e ∈ entries, ∀ e' ∈ entries, ∀ name value value',
    splitEntry e = some (name, value) → splitEntry e' = some (name, value') → value = value'

section

variable {os : HostOs} {hostEnv : HostEnv} {name value : Bytes}

/-- An entry is read as the variable it is made of. -/
theorem splitEntry_envEntry (hne : name ≠ []) (htail : equalsSign ∉ name.tail) :
    splitEntry (envEntry name value) = some (name, value) := by
  cases name with
  | nil => exact absurd rfl hne
  | cons first rest =>
    have hrest : ∀ b ∈ rest, decide (b ≠ equalsSign) = true := fun b hb => decide_eq_true fun h => htail (h ▸ hb)
    rw [envEntry, List.cons_append, splitEntry, if_pos (by simp), List.takeWhile_append_of_pos hrest,
      List.dropWhile_append_of_pos hrest]
    simp

/-- An entry begins with its name up to an equals sign, whether that sign ends the name or is in it. -/
theorem takeWhile_isPrefix_envEntry (name value : Bytes) :
    name.takeWhile (· ≠ equalsSign) ++ [equalsSign] <+: envEntry name value := by
  induction name with
  | nil => exact ⟨value, rfl⟩
  | cons b rest ih =>
    rw [List.takeWhile_cons]
    split
    · exact List.cons_prefix_cons.2 ⟨rfl, ih⟩
    · rename_i hb
      obtain rfl : b = equalsSign := by simpa using hb
      exact ⟨rest ++ equalsSign :: value, rfl⟩

/-- What is on the host under a name is found, though a name that begins with an equals sign may find something else. -/
theorem HostEnv.Valid.getenv_isSome (h : hostEnv.Valid) (hv : (name, value) ∈ hostEnv) : (getenv os hostEnv name).isSome = true := by
  obtain ⟨hne, hzero, -⟩ := h _ hv
  have hkey : (if os = .macos then name.takeWhile (· ≠ equalsSign) else name) ++ [equalsSign] <+: envEntry name value := by
    split
    · exact takeWhile_isPrefix_envEntry name value
    · exact ⟨value, by simp [envEntry]⟩
  rw [getenv, if_neg (not_or.2 ⟨hzero, fun h => hne h.2⟩)]
  obtain ⟨rest, hrest⟩ := hkey
  rw [List.findSome?_isSome_iff]
  exact ⟨_, hv, Option.isSome_iff_exists.2 ⟨rest, List.dropPrefix?_eq_some_iff.2 ⟨_, hrest.symm, beq_self_eq_true _⟩⟩⟩

end

namespace CustomActionConfig

/-- A script of the action refers to the variable, or it is to be captured. -/
def Needs (isAlphanumeric : Char → Bool) (action : CustomActionConfig) (var : List Char) : Prop :=
  (∃ script ∈ action.allScripts, var ∈ findEnvVars isAlphanumeric script) ∨ var ∈ action.captureEnvironment

/-- The name is predefined in `environment`, or exported by the virtual machine. -/
def Supplied (action : CustomActionConfig) (name : Bytes) : Prop :=
  (∃ text ∈ action.environment, (utf8 text).takeWhile (· ≠ equalsSign) = name) ∨ name ∈ vmExportedVars

/-- The variable is defined on the host, predefined in `environment`, or exported by the virtual machine. -/
def Available (hostEnv : HostEnv) (action : CustomActionConfig) (name : Bytes) : Prop :=
  (∃ value, (name, value) ∈ hostEnv) ∨ action.Supplied name

/-- `getenv` finds something under the name, or the action does without the host. -/
def Found (os : HostOs) (hostEnv : HostEnv) (action : CustomActionConfig) (name : Bytes) : Prop :=
  (getenv os hostEnv name).isSome = true ∨ action.Supplied name

/-- What is asked of `prepare_environment`, in whatever order it visits the variables that the scripts use. -/
structure EnvironmentLaw (isAlphanumeric : Char → Bool) (os : HostOs) (hostEnv : HostEnv) (action : CustomActionConfig) : Prop where
  succeeds : ∀ hash, (∃ vars, action.prepareEnvironment isAlphanumeric hash os hostEnv = .ok vars) ↔
    ∀ var, action.Needs isAlphanumeric var → action.Available hostEnv (utf8 var)
  agree : ∀ hash vars, action.prepareEnvironment isAlphanumeric hash os hostEnv = .ok vars → BindingsAgree vars

/-- A variable that the action needs is found on the host, and its entry is read as this binding. Where the name of the variable
has no equals sign, that is the binding of the host. -/
def HostBinds (isAlphanumeric : Char → Bool) (os : HostOs) (hostEnv : HostEnv) (action : CustomActionConfig) (name value : Bytes) : Prop :=
  ∃ var found, action.Needs isAlphanumeric var ∧ getenv os hostEnv (utf8 var) = some found ∧
    splitEntry (envEntry (utf8 var) found) = some (name, value)

/-- The texts of `environment` do not contradict one another, nor the host about a variable that is taken from it, and the entries
of the host do not contradict one another. -/
structure Consistent (isAlphanumeric : Char → Bool) (os : HostOs) (hostEnv : HostEnv) (action : CustomActionConfig) : Prop where
  texts : BindingsAgree (action.environment.map utf8)
  host : ∀ name value, action.HostBinds isAlphanumeric os hostEnv name value →
    ∀ text ∈ action.environment, ∀ value', splitEntry (utf8 text) = some (name, value') → value' = value
  captured : ∀ name value value', action.HostBinds isAlphanumeric os hostEnv name value →
    action.HostBinds isAlphanumeric os hostEnv name value' → value = value'

section

variable {isAlphanumeric : Char → Bool} {hash : HashOrder (List Char)} {os : HostOs} {hostEnv : HostEnv} {action : CustomActionConfig}
  {vars : List Bytes} {name value : Bytes}

/-! ## The result -/

/-- The order of the set does not matter for what is looked up. -/
theorem mem_lookedUpVars :
    name ∈ action.lookedUpVars isAlphanumeric hash ↔ ∃ var, action.Needs isAlphanumeric var ∧ utf8 var = name := by
  simp only [lookedUpVars, List.mem_map, List.mem_append, HashOrder.mem_order, List.mem_dedup, List.mem_flatMap, Needs]

/-- When the action has an environment, and which. -/
theorem prepareEnvironment_eq_ok : action.prepareEnvironment isAlphanumeric hash os hostEnv = .ok vars ↔
    (∀ var, action.Needs isAlphanumeric var → action.Found os hostEnv (utf8 var)) ∧
      action.environment.map utf8 ++
        (action.lookedUpVars isAlphanumeric hash).filterMap (fun name => (getenv os hostEnv name).map (envEntry name)) = vars := by
  have hundefined : (action.lookedUpVars isAlphanumeric hash).filter (fun name =>
        (getenv os hostEnv name).isNone ∧ name ∉ vmExportedVars ∧
          name ∉ action.environment.map (fun e => (utf8 e).takeWhile (· ≠ equalsSign))) = [] ↔
      ∀ var, action.Needs isAlphanumeric var → action.Found os hostEnv (utf8 var) := by
    simp only [List.filter_eq_nil_iff, mem_lookedUpVars, forall_exists_index, and_imp, forall_apply_eq_imp_iff₂]
    refine forall₂_congr fun var _ => ?_
    simp only [Found, Supplied, decide_eq_true_eq, List.mem_map, Option.isNone_iff_eq_none, not_and_or, Classical.not_not,
      ← Option.isSome_iff_ne_none]
    rw [or_comm (a := utf8 var ∈ vmExportedVars)]
  unfold prepareEnvironment
  dsimp only
  split
  case isTrue h => exact ⟨nofun, fun h' => absurd (hundefined.2 h'.1) h⟩
  case isFalse h =>
    have hall := hundefined.1 (Classical.not_not.1 h)
    exact ⟨fun heq => ⟨hall, Except.ok.inj heq⟩, fun h' => congrArg Except.ok h'.2⟩

theorem mem_captured {e : Bytes} :
    e ∈ (action.lookedUpVars isAlphanumeric hash).filterMap (fun name => (getenv os hostEnv name).map (envEntry name)) ↔
      ∃ var found, action.Needs isAlphanumeric var ∧ getenv os hostEnv (utf8 var) = some found ∧ envEntry (utf8 var) found = e := by
  simp only [List.mem_filterMap, mem_lookedUpVars, Option.map_eq_some_iff]
  constructor
  · rintro ⟨_, ⟨var, hneeds, rfl⟩, found, hfound, rfl⟩
    exact ⟨var, found, hneeds, hfound, rfl⟩
  · rintro ⟨var, found, hneeds, hfound, rfl⟩
    exact ⟨_, ⟨var, hneeds, rfl⟩, found, hfound, rfl⟩

/-- The bindings of the host are those of the entries that are taken from it. -/
theorem hostBinds_iff : action.HostBinds isAlphanumeric os hostEnv name value ↔
    ∃ e ∈ (action.lookedUpVars isAlphanumeric hash).filterMap (fun name => (getenv os hostEnv name).map (envEntry name)),
      splitEntry e = some (name, value) := by
  simp only [mem_captured, HostBinds]
  constructor
  · rintro ⟨var, found, hneeds, hfound, hsplit⟩
    exact ⟨_, ⟨var, found, hneeds, hfound, rfl⟩, hsplit⟩
  · rintro ⟨_, ⟨var, found, hneeds, hfound, rfl⟩, hsplit⟩
    exact ⟨var, found, hneeds, hfound, hsplit⟩

/-- The entries of the result agree exactly when the definitions that are put together do not contradict one another. -/
theorem bindingsAgree_iff : BindingsAgree (action.environment.map utf8 ++
        (action.lookedUpVars isAlphanumeric hash).filterMap (fun name => (getenv os hostEnv name).map (envEntry name))) ↔
      action.Consistent isAlphanumeric os hostEnv := by
  constructor
  · intro h
    constructor
    · exact fun e he e' he' => h e (List.mem_append_left _ he) e' (List.mem_append_left _ he')
    · intro name value hbinds text htext value' hsplit
      obtain ⟨e, he, hsplit'⟩ := hostBinds_iff.1 hbinds
      exact h _ (List.mem_append_left _ (List.mem_map_of_mem htext)) e (List.mem_append_right _ he) _ _ _ hsplit hsplit'
    · intro name value value' hbinds hbinds'
      obtain ⟨e, he, hsplit⟩ := hostBinds_iff.1 hbinds
      obtain ⟨e', he', hsplit'⟩ := hostBinds_iff.1 hbinds'
      exact h e (List.mem_append_right _ he) e' (List.mem_append_right _ he') _ _ _ hsplit hsplit'
  · rintro ⟨htexts, hhost, hcaptured⟩ e he e' he' name value value' hsplit hsplit'
    -- each of the two is a text of `environment` or a variable of the host
    rcases List.mem_append.1 he with he | he <;> rcases List.mem_append.1 he' with he' | he'
    · exact htexts e he e' he' name value value' hsplit hsplit'
    · obtain ⟨text, htext, rfl⟩ := List.mem_map.1 he
      exact hhost name value' (hostBinds_iff.2 ⟨e', he', hsplit'⟩) text htext value hsplit
    · obtain ⟨text, htext, rfl⟩ := List.mem_map.1 he'
      exact (hhost name value (hostBinds_iff.2 ⟨e, he, hsplit⟩) text htext value' hsplit').symm
    · exact hcaptured name value value' (hostBinds_iff.2 ⟨e, he, hsplit⟩) (hostBinds_iff.2 ⟨e', he', hsplit'⟩)

/-- What is available is found. -/
theorem Available.found (hhost : hostEnv.Valid) (h : action.Available hostEnv name) : action.Found os hostEnv name :=
  h.imp_left fun ⟨_, hv⟩ => hhost.getenv_isSome hv

end

/-- `prepare_environment` keeps its law exactly when some variable is not found, so that it fails, or every variable is available
under its whole name and the definitions that are put together do not contradict one another. -/
theorem environmentLaw_iff {isAlphanumeric : Char → Bool} {os : HostOs} {hostEnv : HostEnv} (hhost : hostEnv.Valid)
    (action : CustomActionConfig) : action.EnvironmentLaw isAlphanumeric os hostEnv ↔
      ((∀ var, action.Needs isAlphanumeric var → action.Found os hostEnv (utf8 var)) →
        (∀ var, action.Needs isAlphanumeric var → action.Available hostEnv (utf8 var)) ∧
          action.Consistent isAlphanumeric os hostEnv) := by
  constructor
  · intro h hall
    exact ⟨(h.succeeds .listed).1 ⟨_, prepareEnvironment_eq_ok.2 ⟨hall, rfl⟩⟩,
      bindingsAgree_iff.1 (h.agree .listed _ (prepareEnvironment_eq_ok.2 ⟨hall, rfl⟩))⟩
  · intro h
    constructor
    · intro hash
      constructor
      · exact fun ⟨_, hvars⟩ => (h (prepareEnvironment_eq_ok.1 hvars).1).1
      · exact fun hall => ⟨_, prepareEnvironment_eq_ok.2 ⟨fun var hvar => (hall var hvar).found hhost, rfl⟩⟩
    · intro hash vars hvars
      obtain ⟨hall, rfl⟩ := prepareEnvironment_eq_ok.1 hvars
      exact bindingsAgree_iff.2 (h hall).2

/-- `custom_actions.ubuntu_zfs_unlock`. -/
def ubuntuZfsUnlock : CustomActionConfig where
  description := "Mount ZFS keystore encrypted with LUKS to unlock Ubuntu system disk".toList
  beforeMount := "cryptsetup open /dev/zd0 ks0 && mkdir -p $KS && mount /dev/mapper/ks0 $KS".toList
  beforeUnmount := "umount /dev/mapper/ks0 && cryptsetup close ks0".toList
  environment := ["KS=/run/keystore/rpool".toList]
  requiredOs := some .linux

theorem environmentLaw_ubuntuZfsUnlock :
    ubuntuZfsUnlock.EnvironmentLaw Char.isAlphanum .macos [(bytes "HOME", bytes "/root"), (bytes "PWD", bytes "/")] ↔
      ((∀ var, ubuntuZfsUnlock.Needs Char.isAlphanum var →
          ubuntuZfsUnlock.Found .macos [(bytes "HOME", bytes "/root"), (bytes "PWD", bytes "/")] (utf8 var)) →
        (∀ var, ubuntuZfsUnlock.Needs Char.isAlphanum var →
            ubuntuZfsUnlock.Available [(bytes "HOME", bytes "/root"), (bytes "PWD", bytes "/")] (utf8 var)) ∧
          ubuntuZfsUnlock.Consistent Char.isAlphanum .macos [(bytes "HOME", bytes "/root"), (bytes "PWD", bytes "/")]) := by
  refine environmentLaw_iff (fun v hv => ?_) ubuntuZfsUnlock
  rcases List.mem_pair.1 hv with rfl | rfl <;> decide

/-- A variable that the host happens to define too is in the environment with both values. -/
theorem environmentLaw_false : ¬ ∀ (isAlphanumeric : Char → Bool) (os : HostOs) (hostEnv : HostEnv) (action : CustomActionConfig),
    hostEnv.Valid → action.EnvironmentLaw isAlphanumeric os hostEnv := by
  intro h
  have hvalid : HostEnv.Valid [(bytes "KS", bytes "/keys")] := by
    intro v hv
    rw [List.mem_singleton.1 hv]
    decide
  have hlaw := h Char.isAlphanum .macos [(bytes "KS", bytes "/keys")] ubuntuZfsUnlock hvalid
  have hvars : ubuntuZfsUnlock.lookedUpVars Char.isAlphanum .listed = [bytes "KS"] := by decide
  have hneeds : ubuntuZfsUnlock.Needs Char.isAlphanum "KS".toList := by
    obtain ⟨var, hvar, heq⟩ := mem_lookedUpVars.1 (hvars ▸ List.mem_cons_self)
    exact utf8_injective heq ▸ hvar
  have hall : ∀ var, ubuntuZfsUnlock.Needs Char.isAlphanum var →
      ubuntuZfsUnlock.Found .macos [(bytes "KS", bytes "/keys")] (utf8 var) := by
    intro var hvar
    have hname : utf8 var ∈ ubuntuZfsUnlock.lookedUpVars Char.isAlphanum .listed := mem_lookedUpVars.2 ⟨var, hvar, rfl⟩
    rw [hvars] at hname
    have hks : utf8 var = bytes "KS" := by simpa using hname
    exact .inl (by rw [hks]; decide)
  have hagree := hlaw.agree .listed _ (prepareEnvironment_eq_ok.2 ⟨hall, rfl⟩)
  have hbinds : ubuntuZfsUnlock.HostBinds Char.isAlphanum .macos [(bytes "KS", bytes "/keys")] (bytes "KS") (bytes "/keys") :=
    ⟨"KS".toList, bytes "/keys", hneeds, by decide, by decide⟩
  have heq := (bindingsAgree_iff.1 hagree).host _ _ hbinds _ List.mem_cons_self (bytes "/run/keystore/rpool") (by decide)
  exact absurd heq (by decide)

end CustomActionConfig

end Anylinuxfs
