import Anylinuxfs.Decrypt

/-!
# Lemmas about the decryption of devices

What `decrypt` runs and prompts for, part by part, and which passphrases the guest finds in its environment.
-/

namespace Anylinuxfs

open Interact (Prog)

/-! ## Passphrases in the environment -/

theorem lookup_filter_ne {pwds : List (Nat × Bytes)} {i idx : Nat} (h : i ≠ idx) :
    (pwds.filter (fun p => p.1 ≠ idx)).lookup i = pwds.lookup i := by
  induction pwds with
  | nil => rfl
  | cons p pwds ih =>
    obtain ⟨j, v⟩ := p
    by_cases hj : j = idx
    · subst hj
      have hij : (i == j) = false := by simpa using h
      simpa [List.lookup_cons, hij] using ih
    · cases hij : i == j with
      | true => simp [List.lookup_cons, hj, hij]
      | false => simpa [List.lookup_cons, hj, hij] using ih

theorem lookup_insertPwd {pwds : List (Nat × Bytes)} {entry : Bytes} {i : Nat} :
    ((insertPwd pwds entry).lookup i).isSome = true ↔ (pwds.lookup i).isSome = true ∨ (entryPwd entry).map Prod.fst = some i := by
  unfold insertPwd
  cases h : entryPwd entry with
  | none => simp
  | some p =>
    obtain ⟨idx, pwd⟩ := p
    by_cases hi : i = idx
    · subst hi
      simp
    · have hidx : (i == idx) = false := by simpa using hi
      have hne : ¬ idx = i := fun h => hi h.symm
      simp only [List.lookup_cons, hidx, lookup_filter_ne hi, Option.map_some, Option.some.injEq, hne, or_false]

/-- The guest finds a passphrase for a number if some entry is one. -/
theorem lookup_getPwdsFromEnv {env : List Bytes} {i : Nat} :
    ((getPwdsFromEnv env).lookup i).isSome = true ↔ ∃ entry ∈ env, (entryPwd entry).map Prod.fst = some i := by
  suffices H : ∀ pwds, ((env.foldl insertPwd pwds).lookup i).isSome = true ↔
      (pwds.lookup i).isSome = true ∨ ∃ entry ∈ env, (entryPwd entry).map Prod.fst = some i by
    simpa [getPwdsFromEnv] using H []
  induction env with
  | nil => simp
  | cons entry env ih =>
    intro pwds
    rw [List.foldl_cons, ih, lookup_insertPwd]
    simp [or_assoc]

/-- The guest has passphrases if some entry is one. -/
theorem getPwdsFromEnv_ne_nil {env : List Bytes} : getPwdsFromEnv env ≠ [] ↔ ∃ entry ∈ env, (entryPwd entry).isSome = true := by
  constructor
  · intro h
    obtain ⟨⟨i, pwd⟩, rest, hp⟩ := List.exists_cons_of_ne_nil h
    have hi : ((getPwdsFromEnv env).lookup i).isSome = true := by simp [hp]
    obtain ⟨entry, he, hpwd⟩ := lookup_getPwdsFromEnv.1 hi
    obtain ⟨p, hp, -⟩ := Option.map_eq_some_iff.1 hpwd
    exact ⟨entry, he, by rw [hp]; rfl⟩
  · rintro ⟨entry, he, hpwd⟩ hnil
    obtain ⟨p, hp⟩ := Option.isSome_iff_exists.1 hpwd
    have hi := lookup_getPwdsFromEnv.2 ⟨entry, he, by rw [hp]; rfl⟩
    simp [hnil] at hi

/-- An entry with a passphrase begins with the prefix. -/
theorem isPrefixOf_of_entryPwd {entry : Bytes} (h : (entryPwd entry).isSome = true) : passphrasePrefix.isPrefixOf entry = true := by
  unfold entryPwd at h
  cases hs : splitEntry entry with
  | none => simp [hs] at h
  | some kv =>
    obtain ⟨key, value⟩ := kv
    have hkey : passphrasePrefix.isPrefixOf key = true := by
      by_contra hk
      simp [hs, hk] at h
    have hentry : key <+: entry := by
      cases entry with
      | nil => simp [splitEntry] at hs
      | cons first rest =>
        simp only [splitEntry] at hs
        split at hs
        · cases hs
          exact (List.cons_prefix_cons).2 ⟨rfl, List.takeWhile_prefix _⟩
        · cases hs
    exact List.isPrefixOf_iff_prefix.2 ((List.isPrefixOf_iff_prefix.1 hkey).trans hentry)

theorem prefix_takeWhile {α : Type} {p : α → Bool} {l m : List α} (h : l <+: m) (hl : ∀ x ∈ l, p x = true) :
    l <+: m.takeWhile p := by
  obtain ⟨t, rfl⟩ := h
  rw [List.takeWhile_append_of_pos hl]
  exact List.prefix_append _ _

theorem passphrasePrefix_ne_equals : ∀ b ∈ passphrasePrefix, (decide (b ≠ equalsSign)) = true :=
  List.all_eq_true.1 (by decide)

/-- The prefix of an entry is one of its name. -/
theorem isPrefixOf_envEntry {name value : Bytes} :
    passphrasePrefix.isPrefixOf (envEntry name value) = true ↔ passphrasePrefix.isPrefixOf name = true := by
  simp only [List.isPrefixOf_iff_prefix]
  constructor
  · intro h
    have hname : name <+: envEntry name value := List.prefix_append _ _
    rcases List.prefix_or_prefix_of_prefix h hname with hp | ⟨t, ht⟩
    · exact hp
    · -- the name ends inside the prefix, which has no equals sign
      rw [← ht, envEntry, List.prefix_append_right_inj] at h
      cases t with
      | nil => simp [← ht]
      | cons b t =>
        obtain ⟨rfl, -⟩ := List.cons_prefix_cons.1 h
        have hb := passphrasePrefix_ne_equals equalsSign (by rw [← ht]; simp)
        simp at hb
  · intro h
    exact h.trans (List.prefix_append _ _)

/-- An entry for a variable with the prefix is a passphrase. -/
theorem entryPwd_envEntry {name value : Bytes} (h : passphrasePrefix.isPrefixOf name = true) :
    (entryPwd (envEntry name value)).isSome = true := by
  have hentry := List.isPrefixOf_iff_prefix.1 h
  cases name with
  | nil => exact absurd h (by decide)
  | cons first rest =>
    have hmem : equalsSign ∈ rest ++ equalsSign :: value := by simp
    have hkey : passphrasePrefix.isPrefixOf (first :: (rest ++ equalsSign :: value).takeWhile (· ≠ equalsSign)) = true := by
      rw [List.isPrefixOf_iff_prefix]
      have hp : passphrasePrefix <+: first :: (rest ++ equalsSign :: value) := hentry.trans (List.prefix_append _ (_ :: _))
      have hw := prefix_takeWhile hp passphrasePrefix_ne_equals
      refine hw.trans ?_
      rw [List.takeWhile_cons]
      split
      · exact List.prefix_rfl
      · exact List.nil_prefix
    simp only [entryPwd, envEntry, splitEntry, List.cons_append, if_pos hmem, hkey, if_true, Option.isSome_some]

/-- An entry is a passphrase only if the host has one. -/
def OfHost (hostEnv : HostEnv) (e : Bytes) : Prop :=
  passphrasePrefix.isPrefixOf e = true → ∃ v ∈ hostEnv, passphrasePrefix.isPrefixOf v.1 = true

theorem ofHost_of_mem {hostEnv : HostEnv} {v : Bytes × Bytes} (hv : v ∈ hostEnv) : OfHost hostEnv (envEntry v.1 v.2) :=
  fun h => ⟨v, hv, isPrefixOf_envEntry.1 h⟩

/-- What `getenv` finds is the value of a variable of the host, though perhaps under a part of the name. -/
theorem ofHost_of_getenv {os : HostOs} {hostEnv : HostEnv} {name value : Bytes} (h : getenv os hostEnv name = some value) :
    OfHost hostEnv (envEntry name value) := by
  intro hpre
  rw [isPrefixOf_envEntry, List.isPrefixOf_iff_prefix] at hpre
  unfold getenv at h
  split at h
  · cases h
  · obtain ⟨v, hv, hdrop⟩ := List.exists_of_findSome?_eq_some h
    obtain ⟨first, hentry, hfirst⟩ := List.dropPrefix?_eq_some_iff.1 hdrop
    have hkey : passphrasePrefix <+: envEntry v.1 v.2 := by
      rw [hentry, eq_of_beq hfirst, List.append_assoc]
      refine List.IsPrefix.trans ?_ (List.prefix_append _ _)
      split
      · exact prefix_takeWhile hpre passphrasePrefix_ne_equals
      · exact hpre
    exact ⟨v, hv, isPrefixOf_envEntry.1 (List.isPrefixOf_iff_prefix.2 hkey)⟩

/-- The variables of an action are those that it defines, and variables of the host. -/
theorem prepareEnvironment_spec {isAlphanumeric : Char → Bool} {hash : HashOrder (List Char)} {os : HostOs} {hostEnv : HostEnv}
    {action : CustomActionConfig} {vars : List Bytes} (h : action.prepareEnvironment isAlphanumeric hash os hostEnv = .ok vars) :
    (∀ entry ∈ action.environment, utf8 entry ∈ vars) ∧
      ∀ e ∈ vars, OfHost hostEnv e ∨ ∃ entry ∈ action.environment, e = utf8 entry := by
  simp only [CustomActionConfig.prepareEnvironment] at h
  split at h
  · cases h
  · cases h
    constructor
    · intro entry hentry
      exact List.mem_append_left _ (List.mem_map_of_mem hentry)
    · intro e he
      rcases List.mem_append.1 he with he | he
      · obtain ⟨entry, hentry, rfl⟩ := List.mem_map.1 he
        exact .inr ⟨entry, hentry, rfl⟩
      · obtain ⟨name, -, hname⟩ := List.mem_filterMap.1 he
        obtain ⟨value, hvalue, rfl⟩ := Option.map_eq_some_iff.1 hname
        exact .inl (ofHost_of_getenv hvalue)

/-- What the host puts into the environment of the guest. -/
theorem prepareVmEnvironment_spec {isAlphanumeric : Char → Bool} {hash : HashOrder (List Char)} {os : HostOs} {hostEnv : HostEnv}
    {config : MountConfig} {vmEnv : List Bytes} {envHasPassphrase : Bool}
    (h : prepareVmEnvironment isAlphanumeric hash os hostEnv config = .ok (vmEnv, envHasPassphrase)) :
    envHasPassphrase = hostEnv.any (fun v => passphrasePrefix.isPrefixOf v.1) ∧
      (∀ v ∈ hostEnv, passphrasePrefix.isPrefixOf v.1 = true → envEntry v.1 v.2 ∈ vmEnv) ∧
      (∀ action, config.action = some action → ∀ entry ∈ action.environment, utf8 entry ∈ vmEnv) ∧
      ∀ e ∈ vmEnv, OfHost hostEnv e ∨
        ∃ action, config.action = some action ∧ ∃ entry ∈ action.environment, e = utf8 entry := by
  have hvars : ∃ vars, vmEnv = (hostEnv.filter (fun v => passphrasePrefix.isPrefixOf v.1)).map (fun v => envEntry v.1 v.2) ++ vars ∧
      envHasPassphrase = decide (hostEnv.filter (fun v => passphrasePrefix.isPrefixOf v.1) ≠ []) ∧
      (∀ action, config.action = some action → action.prepareEnvironment isAlphanumeric hash os hostEnv = .ok vars) ∧
      (config.action = none → vars = []) := by
    cases hact : config.action with
    | none =>
      simp only [prepareVmEnvironment, hact, pure_bind] at h
      cases h
      exact ⟨[], rfl, rfl, nofun, fun _ => rfl⟩
    | some action =>
      cases hprep : action.prepareEnvironment isAlphanumeric hash os hostEnv with
      | error e =>
        simp only [prepareVmEnvironment, hact, hprep] at h
        cases h
      | ok vars =>
        simp only [prepareVmEnvironment, hact, hprep] at h
        cases h
        refine ⟨vars, rfl, rfl, ?_, nofun⟩
        rintro _ ⟨⟩
        exact hprep
  obtain ⟨vars, rfl, rfl, hsome, hnone⟩ := hvars
  refine ⟨?_, fun v hv hpre => ?_, fun action hact entry hentry => ?_, fun e he => ?_⟩
  · rw [Bool.eq_iff_iff]
    simp
  · exact List.mem_append_left _ (List.mem_map.2 ⟨v, List.mem_filter.2 ⟨hv, hpre⟩, rfl⟩)
  · exact List.mem_append_right _ ((prepareEnvironment_spec (hsome action hact)).1 entry hentry)
  · rcases List.mem_append.1 he with he | he
    · obtain ⟨v, hv, rfl⟩ := List.mem_map.1 he
      exact .inl (ofHost_of_mem (List.mem_filter.1 hv).1)
    · cases hact : config.action with
      | none =>
        rw [hnone hact] at he
        cases he
      | some action =>
        rcases (prepareEnvironment_spec (hsome action hact)).2 e he with hv | ⟨entry, hentry, rfl⟩
        · exact .inl hv
        · exact .inr ⟨action, rfl, entry, hentry, rfl⟩

/-! ## Single calls -/

namespace Guest

variable {env : ∀ c : GuestCall, c.Answer}

/-- A call is a call whose answer is returned. -/
@[simp] theorem sys_eq (c : GuestCall) : sys c = Prog.call c Prog.ret := rfl

@[simp] theorem orThrow_result {α : Type} {r : Except Bytes α} : (orThrow r).result env = r := by
  cases r <;> rfl

@[simp] theorem orThrow_trace {α : Type} {r : Except Bytes α} : (orThrow r).trace env = [] := by
  cases r <;> rfl

theorem prompted_trace {α : Type} {p : Guest α} :
    (prompted p).trace env = .println promptStart :: p.trace env ++ [.println promptEnd] := by
  simp [prompted, Prog.trace_bind, Prog.trace_ensuring]

end Guest

namespace VmDiskContext

open Guest (orThrow prompted)

variable {env : ∀ c : GuestCall, c.Answer} {dsk : VmDiskContext} {pwd : Option Bytes} {piped : Bool} {i : Nat} {dev : List Char}

/-! ## One device -/

@[simp] theorem wait_trace : (wait i).trace env = [.wait i] := by
  simp [wait, Prog.trace_bind]

@[simp] theorem wait_result : (wait i).result env = env (.wait i) := by
  simp [wait, Prog.result_bind]

theorem mem_feed_trace {p : Bytes} {c : GuestCall} (h : c ∈ (feed i p).trace env) : c = .writeStdin i p ∨ c = .wait i := by
  simp only [feed, Guest.sys_eq, Prog.mem_trace_bind] at h
  simp at h
  rcases h with h | ⟨-, h⟩
  · exact .inl h
  · exact .inr h

/-- Getting a passphrase runs nothing. -/
theorem unlock_runs : ((dsk.unlock pwd piped i dev).trace env).filterMap GuestCall.run? = [] := by
  cases hp : pwd <|> dsk.envPwds.lookup (i + 1) with
  | some p =>
    cases piped with
    | false => simp [unlock, hp]
    | true =>
      simp only [unlock, hp, if_true, List.filterMap_eq_nil_iff]
      intro c hc
      rcases mem_feed_trace hc with rfl | rfl <;> rfl
  | none =>
    cases hk : dsk.keyFilePath with
    | some key => simp [unlock, hp, hk, GuestCall.run?]
    | none =>
      cases he : dsk.envHasPassphrase with
      | true => simp [unlock, hp, hk, he]
      | false => simp [unlock, hp, hk, he, Guest.prompted_trace, GuestCall.run?]

theorem envHasPassphrase_eq_false : dsk.envHasPassphrase = false ↔ dsk.envPwds = [] := by
  simp [envHasPassphrase]

@[simp] theorem prompt?_start : (GuestCall.println Guest.promptStart).prompt? = some true := rfl

@[simp] theorem prompt?_end : (GuestCall.println Guest.promptEnd).prompt? = some false := rfl

@[simp] theorem prompt?_wait : (GuestCall.wait i).prompt? = none := rfl

@[simp] theorem prompt?_readPassword : GuestCall.readPassword.prompt? = none := rfl

/-- A device that was opened has been prompted for exactly if there is neither a passphrase nor a key file. -/
theorem unlock_prompts {code : Option Int} (h : (dsk.unlock pwd piped i dev).result env = .ok code) :
    ((dsk.unlock pwd piped i dev).trace env).filterMap GuestCall.prompt? =
      if pwd = none ∧ dsk.keyFilePath = none ∧ dsk.envPwds = [] then [true, false] else [] := by
  cases hp : pwd <|> dsk.envPwds.lookup (i + 1) with
  | some p =>
    have hsome : ¬ (pwd = none ∧ dsk.keyFilePath = none ∧ dsk.envPwds = []) := by
      rintro ⟨rfl, -, hnil⟩
      simp [hnil] at hp
    rw [if_neg hsome]
    cases piped with
    | false => simp [unlock, hp] at h
    | true =>
      simp only [unlock, hp, if_true, List.filterMap_eq_nil_iff]
      intro c hc
      rcases mem_feed_trace hc with rfl | rfl <;> rfl
  | none =>
    have hpwd : pwd = none := by
      cases pwd with
      | none => rfl
      | some p => simp at hp
    cases hk : dsk.keyFilePath with
    | some key => simp [unlock, hp, hk, GuestCall.prompt?]
    | none =>
      cases he : dsk.envHasPassphrase with
      | true => simp [unlock, hp, hk, he] at h
      | false =>
        have hnil := envHasPassphrase_eq_false.1 he
        simp [unlock, hk, he, hpwd, hnil, Guest.prompted_trace, List.filterMap_cons]

/-- A device that was opened without a key file, beside passphrases in the environment, has one of its own or one for all. -/
theorem unlock_covered {code : Option Int} (h : (dsk.unlock pwd piped i dev).result env = .ok code)
    (hk : dsk.keyFilePath = none) (he : dsk.envPwds ≠ []) : pwd.isSome = true ∨ (dsk.envPwds.lookup (i + 1)).isSome = true := by
  cases hp : pwd <|> dsk.envPwds.lookup (i + 1) with
  | some p =>
    cases pwd with
    | none => exact .inr (by simpa using congrArg Option.isSome hp)
    | some q => exact .inl rfl
  | none =>
    have hhas : dsk.envHasPassphrase = true := by simpa [envHasPassphrase] using he
    simp [unlock, hp, hk, hhas] at h

/-! ## The loop -/

/-- The answers of a guest in which everything goes well. -/
def allOpen : (c : GuestCall) → c.Answer
  | .println _ => ()
  | .readPassword => .ok []
  | .spawn _ | .writeStdin _ _ => .ok ()
  | .wait _ => .ok (some 0)

/-- The run of `cryptsetup` for a device. -/
def cmd (dsk : VmDiskContext) (piped : Bool) (i : Nat) (dev : List Char) : Cryptsetup :=
  ⟨dsk.cryptsetupOp, dsk.keyFilePath, dev, dsk.mapperIdentPrefix ++ Nat.toDigits 10 i, piped⟩

@[simp] theorem checkCode_result {code : Option Int} {u : Unit} : (checkCode dev code).result env = .ok u ↔ code = some 0 := by
  unfold checkCode
  split <;> simp [*]

@[simp] theorem checkCode_trace {code : Option Int} : (checkCode dev code).trace env = [] := by
  unfold checkCode
  split <;> rfl

variable {devs : List (List Char)}

/-- The loop goes on after a device that was opened. -/
theorem decryptLoop_cons_result : (dsk.decryptLoop pwd piped i (dev :: devs)).result env = .ok () ↔
    env (.spawn (dsk.cmd piped i dev)) = .ok () ∧ (dsk.unlock pwd piped i dev).result env = .ok (some 0) ∧
      (dsk.decryptLoop pwd piped (i + 1) devs).result env = .ok () := by
  simp [decryptLoop, cmd, Unique.exists_iff]

/-- The calls of the loop, if the first device is opened. -/
theorem decryptLoop_cons_trace (hs : env (.spawn (dsk.cmd piped i dev)) = .ok ())
    (hu : (dsk.unlock pwd piped i dev).result env = .ok (some 0)) : (dsk.decryptLoop pwd piped i (dev :: devs)).trace env =
      .spawn (dsk.cmd piped i dev) :: (dsk.unlock pwd piped i dev).trace env ++
        (dsk.decryptLoop pwd piped (i + 1) devs).trace env := by
  have hcheck : (checkCode dev (some 0)).result env = .ok () := by simp
  simp only [cmd] at hs
  simp [decryptLoop, cmd, Prog.trace_bind, hs, hu, hcheck]

/-- The runs of the loop, if the first device is not opened. -/
theorem decryptLoop_cons_runs (h : ¬ (env (.spawn (dsk.cmd piped i dev)) = .ok () ∧
    (dsk.unlock pwd piped i dev).result env = .ok (some 0))) :
    ((dsk.decryptLoop pwd piped i (dev :: devs)).trace env).filterMap GuestCall.run? = [(dsk.cryptsetupOp, dev)] := by
  simp only [cmd] at h
  cases hs : env (.spawn (dsk.cmd piped i dev)) with
  | error e =>
    simp only [cmd] at hs
    simp [decryptLoop, Prog.trace_bind, hs, GuestCall.run?]
  | ok u =>
    simp only [cmd] at hs
    cases hu : (dsk.unlock pwd piped i dev).result env with
    | error e => simp [decryptLoop, Prog.trace_bind, hs, hu, unlock_runs, GuestCall.run?]
    | ok code =>
      have hcode : code ≠ some 0 := by
        rintro rfl
        exact h ⟨hs, hu⟩
      have hcheck : (checkCode dev code).result env =
          .error (bytes "Failed to open encrypted device '" ++ utf8 dev ++ bytes "': " ++ codeText (bytes "unknown") code) := by
        simp [checkCode, hcode]
      simp [decryptLoop, Prog.trace_bind, hs, hu, hcheck, unlock_runs, GuestCall.run?]

/-- The runs of the loop are those of its devices, in order, up to the first failure. -/
theorem decryptLoop_runs (i : Nat) (devs : List (List Char)) :
    ((dsk.decryptLoop pwd piped i devs).trace env).filterMap GuestCall.run? <+: devs.map (fun d => (dsk.cryptsetupOp, d)) ∧
      ((dsk.decryptLoop pwd piped i devs).result env = .ok () →
        ((dsk.decryptLoop pwd piped i devs).trace env).filterMap GuestCall.run? = devs.map (fun d => (dsk.cryptsetupOp, d))) := by
  induction devs generalizing i with
  | nil => simp [decryptLoop]
  | cons dev devs ih =>
    by_cases h : env (.spawn (dsk.cmd piped i dev)) = .ok () ∧ (dsk.unlock pwd piped i dev).result env = .ok (some 0)
    · obtain ⟨hstart, hall⟩ := ih (i + 1)
      have hruns : ((dsk.decryptLoop pwd piped i (dev :: devs)).trace env).filterMap GuestCall.run? =
          (dsk.cryptsetupOp, dev) :: ((dsk.decryptLoop pwd piped (i + 1) devs).trace env).filterMap GuestCall.run? := by
        rw [decryptLoop_cons_trace h.1 h.2]
        simp [List.filterMap_append, unlock_runs, GuestCall.run?, cmd]
      rw [hruns, List.map_cons]
      refine ⟨List.cons_prefix_cons.2 ⟨rfl, hstart⟩, fun hok => ?_⟩
      rw [hall (decryptLoop_cons_result.1 hok).2.2]
    · rw [decryptLoop_cons_runs h]
      refine ⟨by simp, fun hok => ?_⟩
      obtain ⟨hs, hu, -⟩ := decryptLoop_cons_result.1 hok
      exact absurd ⟨hs, hu⟩ h

/-- After a loop without a failure, every device has been prompted for or none. -/
theorem decryptLoop_prompts (i : Nat) (devs : List (List Char)) (h : (dsk.decryptLoop pwd piped i devs).result env = .ok ()) :
    ((dsk.decryptLoop pwd piped i devs).trace env).filterMap GuestCall.prompt? =
      if pwd = none ∧ dsk.keyFilePath = none ∧ dsk.envPwds = [] then (List.replicate devs.length [true, false]).flatten else [] := by
  induction devs generalizing i with
  | nil => simp [decryptLoop]
  | cons dev devs ih =>
    obtain ⟨hs, hu, hrest⟩ := decryptLoop_cons_result.1 h
    rw [decryptLoop_cons_trace hs hu, List.filterMap_append, List.filterMap_cons_none rfl, unlock_prompts hu, ih _ hrest]
    split <;> simp [List.replicate_succ]

/-- After a loop without a failure, without a key file but beside passphrases, every device has a passphrase. -/
theorem decryptLoop_covered (i : Nat) (devs : List (List Char)) (h : (dsk.decryptLoop none piped i devs).result env = .ok ())
    (hk : dsk.keyFilePath = none) (he : dsk.envPwds ≠ []) :
    ∀ j < devs.length, (dsk.envPwds.lookup (i + j + 1)).isSome = true := by
  induction devs generalizing i with
  | nil =>
    intro j hj
    cases hj
  | cons dev devs ih =>
    intro j hj
    obtain ⟨-, hu, hrest⟩ := decryptLoop_cons_result.1 h
    cases j with
    | zero =>
      rcases unlock_covered hu hk he with hp | hp
      · cases hp
      · exact hp
    | succ j =>
      have := ih (i + 1) hrest j (by simpa using hj)
      rwa [show i + (j + 1) + 1 = i + 1 + j + 1 by omega]

/-- A device for which there is a passphrase and a pipe, or otherwise a key file, can be opened. -/
theorem unlock_allOpen (h : ((pwd <|> dsk.envPwds.lookup (i + 1)).isSome = true ∧ piped = true) ∨
    ((pwd <|> dsk.envPwds.lookup (i + 1)) = none ∧ dsk.keyFilePath.isSome = true)) :
    (dsk.unlock pwd piped i dev).result allOpen = .ok (some 0) := by
  rcases h with ⟨hp, rfl⟩ | ⟨hp, hk⟩
  · obtain ⟨p, hp⟩ := Option.isSome_iff_exists.1 hp
    simp [unlock, hp, feed, allOpen, Unique.exists_iff]
  · simp [unlock, hp, hk, allOpen]

theorem decryptLoop_allOpen (i : Nat) (devs : List (List Char))
    (h : ∀ j < devs.length, ((pwd <|> dsk.envPwds.lookup (i + j + 1)).isSome = true ∧ piped = true) ∨
      ((pwd <|> dsk.envPwds.lookup (i + j + 1)) = none ∧ dsk.keyFilePath.isSome = true)) :
    (dsk.decryptLoop pwd piped i devs).result allOpen = .ok () := by
  induction devs generalizing i with
  | nil => rfl
  | cons dev devs ih =>
    refine decryptLoop_cons_result.2 ⟨rfl, unlock_allOpen (h 0 (by simp)), ih (i + 1) fun j hj => ?_⟩
    have := h (j + 1) (by simpa using hj)
    rwa [show i + (j + 1) + 1 = i + 1 + j + 1 by omega] at this

/-! ## All devices -/

variable {reuse : Bool}

theorem askPassword_trace : askPassword.trace env = [.println Guest.promptStart, .readPassword, .println Guest.promptEnd] := by
  simp [askPassword, Guest.prompted_trace, Prog.trace_bind]

/-- Asking for the passphrase for all devices runs nothing. -/
theorem pwdForAll_runs : ((dsk.pwdForAll reuse).trace env).filterMap GuestCall.run? = [] := by
  unfold pwdForAll
  split
  · split
    · rfl
    · split
      · rfl
      · cases hr : askPassword.result env <;> simp [Prog.trace_bind, askPassword_trace, hr, GuestCall.run?]
  · rfl

/-- The passphrase for all devices, when the guest has got it: whether there is one, what was printed, and where it is from. -/
theorem pwdForAll_spec {r : Option Bytes × Bool} (h : (dsk.pwdForAll reuse).result env = .ok r) :
    (r.1 = none ↔ ¬ (reuse = true ∧ dsk.keyFilePath = none)) ∧
      ((dsk.pwdForAll reuse).trace env).filterMap GuestCall.prompt? =
        (if reuse = true ∧ dsk.keyFilePath = none ∧ dsk.envPwds = [] then [true, false] else []) ∧
      (reuse = true → dsk.keyFilePath = none → dsk.envPwds ≠ [] → (dsk.envPwds.lookup 1).isSome = true) := by
  by_cases hall : reuse = true ∧ dsk.keyFilePath = none
  · cases hl : dsk.envPwds.lookup 1 with
    | some p =>
      have hne : dsk.envPwds ≠ [] := by
        intro hnil
        simp [hnil] at hl
      simp only [pwdForAll, hall, hl, if_true, and_self] at h ⊢
      cases h
      simp [hne]
    | none =>
      cases he : dsk.envHasPassphrase with
      | true => simp [pwdForAll, hall, hl, he] at h
      | false =>
        have hnil := envHasPassphrase_eq_false.1 he
        cases hr : askPassword.result env with
        | error e => simp [pwdForAll, hall, hnil, he, hr] at h
        | ok p =>
          have hr' : (some p, true) = r := by simpa [pwdForAll, hall, hnil, he, hr] using h
          simp [pwdForAll, hall, hnil, he, hr, ← hr', Prog.trace_bind, askPassword_trace, List.filterMap_cons]
  · simp only [pwdForAll, hall, if_false] at h ⊢
    cases h
    have hnot : ¬ (reuse = true ∧ dsk.keyFilePath = none ∧ dsk.envPwds = []) := fun h => hall ⟨h.1, h.2.1⟩
    rw [if_neg hnot]
    exact ⟨by simp, rfl, fun hr hk => absurd ⟨hr, hk⟩ hall⟩

/-- The runs are those of the devices on the command line, in order, up to the first failure. -/
theorem decrypt_runs {devs : List Char} :
    ((dsk.decrypt devs reuse).trace env).filterMap GuestCall.run? <+: (devs.splitOn ',').map (fun d => (dsk.cryptsetupOp, d)) ∧
      ((dsk.decrypt devs reuse).result env = .ok () →
        ((dsk.decrypt devs reuse).trace env).filterMap GuestCall.run? =
          (devs.splitOn ',').map (fun d => (dsk.cryptsetupOp, d))) := by
  cases hr : (dsk.pwdForAll reuse).result env with
  | error e => simp [decrypt, Prog.trace_bind, Prog.result_bind, hr, pwdForAll_runs]
  | ok r =>
    simp only [decrypt, Prog.trace_bind, Prog.result_bind, hr, List.filterMap_append, pwdForAll_runs, List.nil_append]
    exact decryptLoop_runs 0 (devs.splitOn ',')

/-- The prompts of a decryption without a failure. -/
theorem decrypt_prompts {devs : List Char} (h : (dsk.decrypt devs reuse).result env = .ok ()) :
    ((dsk.decrypt devs reuse).trace env).filterMap GuestCall.prompt? =
      if dsk.keyFilePath = none ∧ dsk.envPwds = [] then
        if reuse = true then [true, false] else (List.replicate (devs.splitOn ',').length [true, false]).flatten
      else [] := by
  simp only [decrypt, Prog.result_bind_eq_ok] at h
  obtain ⟨r, hr, hloop⟩ := h
  obtain ⟨hnone, hprompts, -⟩ := pwdForAll_spec hr
  simp only [decrypt, Prog.trace_bind, hr, List.filterMap_append, hprompts, decryptLoop_prompts _ _ hloop, hnone]
  by_cases hk : dsk.keyFilePath = none <;> by_cases he : dsk.envPwds = [] <;> cases reuse <;> simp [hk, he]

/-- After a decryption without a failure, without a key file but beside passphrases, there was a passphrase for each device. -/
theorem decrypt_covered {devs : List Char} (h : (dsk.decrypt devs reuse).result env = .ok ()) (hk : dsk.keyFilePath = none)
    (he : dsk.envPwds ≠ []) : if reuse = true then (dsk.envPwds.lookup 1).isSome = true
      else ∀ j < (devs.splitOn ',').length, (dsk.envPwds.lookup (j + 1)).isSome = true := by
  simp only [decrypt, Prog.result_bind_eq_ok] at h
  obtain ⟨⟨p, piped⟩, hr, hloop⟩ := h
  obtain ⟨hnone, -, hone⟩ := pwdForAll_spec hr
  split
  · rename_i hreuse
    exact hone hreuse hk he
  · rename_i hreuse
    obtain rfl : p = none := hnone.2 (fun h => hreuse h.1)
    intro j hj
    have := decryptLoop_covered 0 _ hloop hk he j hj
    rwa [Nat.zero_add] at this

/-- If there is a key file and no passphrase in the environment, or a passphrase for each device, the devices can be decrypted. -/
theorem decrypt_allOpen {devs : List Char} (h : (dsk.keyFilePath.isSome = true ∧ dsk.envPwds = []) ∨
    (dsk.keyFilePath = none ∧ dsk.envPwds ≠ [] ∧ if reuse = true then (dsk.envPwds.lookup 1).isSome = true
      else ∀ j < (devs.splitOn ',').length, (dsk.envPwds.lookup (j + 1)).isSome = true)) :
    (dsk.decrypt devs reuse).result allOpen = .ok () := by
  rcases h with ⟨hk, he⟩ | ⟨hk, he, hcov⟩
  · have hr : (dsk.pwdForAll reuse).result allOpen = .ok (none, false) := by
      simp [pwdForAll, Option.isSome_iff_ne_none.1 hk, envHasPassphrase, he]
    simp only [decrypt, Prog.result_bind, hr]
    refine decryptLoop_allOpen 0 _ fun j _ => .inr ⟨by simp [he], hk⟩
  · cases reuse with
    | true =>
      obtain ⟨p, hp⟩ := Option.isSome_iff_exists.1 hcov
      have hr : (dsk.pwdForAll true).result allOpen = .ok (some p, true) := by simp [pwdForAll, hk, hp]
      simp only [decrypt, Prog.result_bind, hr]
      exact decryptLoop_allOpen 0 _ fun j _ => .inl ⟨by simp, rfl⟩
    | false =>
      have hr : (dsk.pwdForAll false).result allOpen = .ok (none, true) := by simp [pwdForAll, hk, envHasPassphrase, he]
      simp only [decrypt, Prog.result_bind, hr]
      refine decryptLoop_allOpen 0 _ fun j hj => .inl ⟨?_, rfl⟩
      have := hcov j hj
      simpa using this

end VmDiskContext

end Anylinuxfs
