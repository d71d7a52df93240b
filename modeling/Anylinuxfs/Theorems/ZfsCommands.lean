import Anylinuxfs.Lemmas.Utf8
import Anylinuxfs.Lib.BareWords
import Anylinuxfs.Theorems.Zfs
import Anylinuxfs.ZfsDatasets

/-!
# The commands for ZFS

The scripts that are run are the beginning of those for the list of the data sets, and all of them if the run succeeds. Each is
the command that it is meant to be exactly when the names in it have no blanks, the paths mean themselves outside of quotes, and no
pattern in a path finds another one.
-/

namespace Anylinuxfs

open Interact (Prog)

namespace Zfs

variable {env : ∀ c : ScriptCall, c.Answer} {keyFilePath : Option (List Char)} {loadedPools : List (List Char)}
  {mountpoints : List Vmproxy.Mountpoint} {mp : Vmproxy.Mountpoint} {name root keyFile pool flag : List Char}
  {glob : Shell.Word → List Bytes}

/-! ## Runs -/

theorem scripts_bind {α β : Type} {p : Scripted α} {f : α → Scripted β} : scripts env (p >>= f) =
    scripts env p ++ match p.result env with
      | .ok a => scripts env (f a)
      | .error _ => [] := by
  unfold scripts
  rw [Prog.trace_bind, List.filterMap_append]
  cases p.result env <;> rfl

theorem scripts_orContext {α : Type} (text : Bytes) (answer : Option α) : scripts env (orContext text answer) = [] := by
  cases answer <;> rfl

theorem scripts_orThrow (answer : Except Bytes Unit) : scripts env (orThrow answer) = [] := by
  cases answer <;> rfl

theorem scripts_orBail (text : Bytes) (status : Option Int) : scripts env (orBail text status) = [] := by
  unfold orBail
  split <;> rfl

/-- A part that runs no script. -/
theorem scripts_bind_left {α β : Type} {p : Scripted α} {f : α → Scripted β} (hf : ∀ a, scripts env (f a) = []) :
    scripts env (p >>= f) = scripts env p := by
  rw [scripts_bind]
  cases p.result env with
  | ok a => simp [hf a]
  | error e => simp

/-- The end of a turn, which looks at how a command ended. -/
theorem scripts_checked (text text' : Bytes) (answer : Option (Option Int)) :
    scripts env (orContext text answer >>= orBail text') = [] := by
  rw [scripts_bind_left (scripts_orBail text'), scripts_orContext]

theorem scripts_loadKey : scripts env (loadKey keyFilePath loadedPools mp) =
    ((keyToLoad keyFilePath loadedPools mp).map (loadKeyScript · mp.pool)).toList := by
  unfold loadKey
  cases keyToLoad keyFilePath loadedPools mp with
  | none => rfl
  | some keyFile => exact scripts_bind_left fun answer => scripts_checked _ _ answer

/-- A script is run once, whether it gets a passphrase or not. -/
theorem scripts_runWith (pwd : Option Bytes) (script : List Char) : scripts env (runWith pwd script) = [script] := by
  cases pwd with
  | none => rfl
  | some pwd =>
    have hwait : scripts env (sys .wait) = [] := rfl
    refine (scripts_bind_left fun answer => ?_).trans rfl
    rw [scripts_bind, scripts_orThrow]
    split
    · refine (scripts_bind_left fun answer => ?_).trans rfl
      rw [scripts_bind_left fun _ => hwait, scripts_orThrow]
    · rfl

theorem scripts_mountDataset (pwd : Option Bytes) :
    scripts env (mountDataset pwd loadedPools mp) = [mountScript (loadKeyFlag loadedPools mp) mp.name] := by
  unfold mountDataset
  rw [scripts_bind_left fun answer => scripts_checked _ _ answer, scripts_runWith]

theorem operations_cons : operations keyFilePath loadedPools (mp :: mountpoints) =
    ((keyToLoad keyFilePath loadedPools mp).map (Operation.loadKey · mp.pool)).toList ++
      .mount (loadKeyFlag (loadedPoolsAt keyFilePath loadedPools mp) mp) mp.name ::
        operations keyFilePath (loadedPoolsAt keyFilePath loadedPools mp) mountpoints := rfl

/-- The scripts that are run are the first ones for the data sets, and all of them if the run succeeds. -/
theorem scripts_mountDatasetsFrom (envPwds : List (Nat × Bytes)) (i : Nat) :
    scripts env (mountDatasetsFrom envPwds keyFilePath i loadedPools mountpoints) <+:
        (operations keyFilePath loadedPools mountpoints).map Operation.script ∧
      ((mountDatasetsFrom envPwds keyFilePath i loadedPools mountpoints).result env = .ok () →
        scripts env (mountDatasetsFrom envPwds keyFilePath i loadedPools mountpoints) =
          (operations keyFilePath loadedPools mountpoints).map Operation.script) := by
  induction mountpoints generalizing i loadedPools with
  | nil => exact ⟨List.nil_prefix, fun _ => rfl⟩
  | cons mp rest ih =>
    have hkey : ((keyToLoad keyFilePath loadedPools mp).map (Operation.loadKey · mp.pool)).toList.map Operation.script =
        ((keyToLoad keyFilePath loadedPools mp).map (loadKeyScript · mp.pool)).toList := by
      cases keyToLoad keyFilePath loadedPools mp <;> rfl
    obtain ⟨hbegin, hall⟩ := @ih (loadedPoolsAt keyFilePath loadedPools mp) (i + 1)
    rw [operations_cons, List.map_append, List.map_cons, hkey]
    rw [mountDatasetsFrom, scripts_bind, scripts_loadKey]
    constructor
    · refine (List.prefix_append_right_inj _).2 ?_
      cases (loadKey keyFilePath loadedPools mp).result env with
      | error e => exact List.nil_prefix
      | ok =>
        dsimp only
        rw [scripts_bind, scripts_mountDataset, List.singleton_append]
        refine List.cons_prefix_cons.2 ⟨rfl, ?_⟩
        split
        · exact hbegin
        · exact List.nil_prefix
    · intro hok
      obtain ⟨_, hkeyOk, hok⟩ := Prog.result_bind_eq_ok.1 hok
      obtain ⟨_, hmountOk, hrestOk⟩ := Prog.result_bind_eq_ok.1 hok
      rw [hkeyOk]
      dsimp only
      rw [scripts_bind, scripts_mountDataset, hmountOk, List.singleton_append]
      exact congrArg _ (congrArg _ (hall hrestOk))

/-- Every command succeeds. -/
def allSucceed : ∀ c : ScriptCall, c.Answer
  | .status _ | .wait => some (some 0)
  | .spawn _ | .writeStdin _ => .ok ()

theorem result_allSucceed (envPwds : List (Nat × Bytes)) (i : Nat) :
    (mountDatasetsFrom envPwds keyFilePath i loadedPools mountpoints).result allSucceed = .ok () := by
  induction mountpoints generalizing i loadedPools with
  | nil => rfl
  | cons mp rest ih =>
    refine Prog.result_bind_eq_ok.2 ⟨(), ?_, Prog.result_bind_eq_ok.2 ⟨(), ?_, ih (i + 1)⟩⟩
    · unfold loadKey
      cases keyToLoad keyFilePath loadedPools mp <;> rfl
    · cases envPwds.lookup (i + 1) <;> rfl

/-! ## Scripts -/

theorem map_append_eq_some {α : Type} {l m : List α} {o : Option (List α)} : o.map (l ++ ·) = some (l ++ m) ↔ o = some m := by
  cases o <;> simp

/-- The words before the first name or path of a command. -/
def leading (fixed : List String) : Bytes := (fixed.map bytes).flatMap (· ++ [Shell.Byte.space])

theorem plain_of_all {v : Bytes} (h : (!v.isEmpty && v.all Shell.inert) = true) : Shell.Plain v := by
  obtain ⟨hne, hinert⟩ := Bool.and_eq_true_iff.1 h
  refine ⟨?_, List.all_eq_true.1 hinert⟩
  rintro rfl
  cases hne

theorem plain_of_mem {words : List Bytes} (h : (words.all fun v => !v.isEmpty && v.all Shell.inert) = true) :
    ∀ v ∈ words, Shell.Plain v := fun v hv => plain_of_all (List.all_eq_true.1 h v hv)

/-- Words that mean themselves, and the rest of a command. -/
theorem argv_leading {fixed : List String} (h : ∀ v ∈ fixed.map bytes, Shell.Plain v) {script : List Char} {rest : Bytes}
    (hscript : utf8 script = leading fixed ++ rest) {last : List Bytes} :
    argv glob script = some (fixed.map bytes ++ last) ↔ Shell.wordsIn glob rest = some last := by
  rw [argv, hscript, leading, Shell.wordsIn_line _ h]
  exact map_append_eq_some

/-- A text up to a blank, and the rest. -/
theorem utf8_append_cons (a b : List Char) (c : Char) : utf8 (a ++ c :: b) = utf8 (a ++ [c]) ++ utf8 b := by
  rw [List.append_cons, utf8_append]

theorem argv_loadKey_iff : argv glob (loadKeyScript keyFile pool) = some (Operation.loadKey keyFile pool).args ↔
    Shell.Stands glob (bytes "file://") (some Shell.Byte.space) (utf8 keyFile) ∧
      Shell.wordsIn glob (utf8 pool) = some [utf8 pool] := by
  have hstart : utf8 "zfs load-key -L file://".toList = leading ["zfs", "load-key", "-L"] ++ bytes "file://" := rfl
  have hend : utf8 (keyFile ++ ' ' :: pool) = utf8 keyFile ++ Shell.Byte.space :: utf8 pool := utf8_append keyFile (' ' :: pool)
  have hparts : loadKeyScript keyFile pool = "zfs load-key -L file://".toList ++ (keyFile ++ ' ' :: pool) := List.append_assoc _ _ _
  have hscript : utf8 (loadKeyScript keyFile pool) =
      leading ["zfs", "load-key", "-L"] ++ (bytes "file://" ++ utf8 keyFile ++ Shell.Byte.space :: utf8 pool) := by
    rw [hparts, utf8_append, hstart, hend, List.append_assoc, List.append_assoc]
  exact (argv_leading (plain_of_mem (by decide)) hscript).trans (Shell.wordsIn_middle_iff (plain_of_all (by decide)))

theorem argv_mount_iff (hflag : flag = [] ∨ flag = "-l".toList) :
    argv glob (mountScript flag name) = some (Operation.mount flag name).args ↔
      Shell.wordsIn glob (utf8 name) = some [utf8 name] := by
  rcases hflag with rfl | rfl
  · have hstart : utf8 ("zfs mount ".toList ++ [] ++ [' ']) = leading ["zfs", "mount"] ++ [Shell.Byte.space] := rfl
    have hscript : utf8 (mountScript [] name) = leading ["zfs", "mount"] ++ Shell.Byte.space :: utf8 name :=
      (utf8_append_cons _ _ _).trans ((congrArg (· ++ utf8 name) hstart).trans (List.append_cons _ _ _).symm)
    refine (argv_leading (plain_of_mem (by decide)) hscript).trans ?_
    rw [Shell.wordsIn_space]
  · have hstart : utf8 ("zfs mount ".toList ++ "-l".toList ++ [' ']) = leading ["zfs", "mount", "-l"] := rfl
    have hscript : utf8 (mountScript "-l".toList name) = leading ["zfs", "mount", "-l"] ++ utf8 name :=
      (utf8_append_cons _ _ _).trans (congrArg (· ++ utf8 name) hstart)
    exact argv_leading (plain_of_mem (by decide)) hscript

theorem argv_import_iff (readOnly : Bool) : argv glob (importScript root readOnly) = some (importArgs root readOnly) ↔
    Shell.wordsIn glob (utf8 root) = some [utf8 root] := by
  cases readOnly with
  | false =>
    have hstart : utf8 ("zpool import ".toList ++ [] ++ " -faNR ".toList) =
        leading ["zpool", "import"] ++ Shell.Byte.space :: leading ["-faNR"] := rfl
    have hscript : utf8 (importScript root false) =
        leading ["zpool", "import"] ++ Shell.Byte.space :: (leading ["-faNR"] ++ utf8 root) :=
      (utf8_append _ _).trans ((congrArg (· ++ utf8 root) hstart).trans (List.append_assoc _ _ _))
    refine (argv_leading (plain_of_mem (by decide)) hscript).trans ?_
    rw [Shell.wordsIn_space, leading, Shell.wordsIn_line _ (plain_of_mem (by decide))]
    exact map_append_eq_some
  | true =>
    have hstart : utf8 ("zpool import ".toList ++ "-o readonly=on".toList ++ " -faNR ".toList) =
        leading ["zpool", "import", "-o", "readonly=on", "-faNR"] := rfl
    have hscript : utf8 (importScript root true) = leading ["zpool", "import", "-o", "readonly=on", "-faNR"] ++ utf8 root :=
      (utf8_append _ _).trans (congrArg (· ++ utf8 root) hstart)
    exact argv_leading (plain_of_mem (by decide)) hscript

/-! ## Names -/

theorem inert_of_isAlphanum {c : Char} (h : c.isAlphanum = true) : c.toNat < 0x80 ∧ Shell.inert (UInt8.ofNat c.toNat) = true := by
  have hrange := range_of_isAlphanum h
  have hall : ∀ n < 0x7b, (0x41 ≤ n ∧ n ≤ 0x5a ∨ 0x61 ≤ n ∧ n ≤ 0x7a) ∨ 0x30 ≤ n ∧ n ≤ 0x39 →
      Shell.inert (UInt8.ofNat n) = true := by decide
  exact ⟨by omega, hall _ (by omega) hrange⟩

/-- The characters of names other than the blank mean themselves. -/
theorem inert_of_nameChar {c : Char} (h : (c.isAlphanum || [' ', '_', '-', ':', '.', '/'].contains c) = true) (hne : c ≠ ' ') :
    c.toNat < 0x80 ∧ Shell.inert (UInt8.ofNat c.toNat) = true := by
  rcases Bool.or_eq_true_iff.1 h with h | h
  · exact inert_of_isAlphanum h
  · have hmarks : (['_', '-', ':', '.', '/'].all fun m => m.toNat < 0x80 && Shell.inert (UInt8.ofNat m.toNat)) = true := by decide
    have hmem : c ∈ ['_', '-', ':', '.', '/'] := (List.mem_cons.1 (List.contains_iff_mem.1 h)).resolve_left hne
    obtain ⟨hlt, hinert⟩ := Bool.and_eq_true_iff.1 (List.all_eq_true.1 hmarks c hmem)
    exact ⟨of_decide_eq_true hlt, hinert⟩

/-- The bytes of a name without blanks mean themselves. -/
theorem inert_of_mem_name (h : (name.all fun c => c.isAlphanum || [' ', '_', '-', ':', '.', '/'].contains c) = true) (hblank : ' ' ∉ name) :
    ∀ b ∈ utf8 name, Shell.inert b = true := by
  intro b hb
  obtain ⟨d, hd, hb⟩ := List.mem_flatMap.1 hb
  have hchar := inert_of_nameChar (List.all_eq_true.1 h d hd) fun heq => hblank (heq ▸ hd)
  rw [utf8EncodeChar_of_ascii hchar.1, List.mem_singleton] at hb
  exact hb ▸ hchar.2

/-- A name is one word exactly when it has no blank. -/
theorem words_name_iff (h : isDatasetName name = true) : Shell.wordsIn glob (utf8 name) = some [utf8 name] ↔ ' ' ∉ name := by
  obtain ⟨hhead, hall⟩ := Bool.and_eq_true_iff.1 h
  cases name with
  | nil => cases hhead
  | cons c rest =>
    obtain ⟨hascii, hinert⟩ := inert_of_isAlphanum (Bool.or_eq_true_iff.2 (.inl hhead))
    have hname : utf8 (c :: rest) = UInt8.ofNat c.toNat :: utf8 rest := by
      rw [utf8_cons, utf8EncodeChar_of_ascii hascii]
      rfl
    rw [hname, Shell.wordsIn_word_iff hinert, ← hname]
    constructor
    · rintro ⟨hbare, -⟩ hblank
      exact Shell.not_bareBefore_of_space ((mem_utf8_iff_of_ascii (a := ' ') (by decide)).2 hblank) hbare
    · intro hblank
      have hbytes := inert_of_mem_name hall hblank
      exact ⟨Shell.bareBefore_of_inert hbytes, Shell.staysIn_bare_iff.1 (Shell.staysIn_of_inert hbytes)⟩

theorem isDatasetName_of_isPoolName (h : isPoolName pool = true) : isDatasetName pool = true := by
  obtain ⟨hhead, hall⟩ := Bool.and_eq_true_iff.1 h
  refine Bool.and_eq_true_iff.2 ⟨hhead, List.all_eq_true.2 fun c hc => ?_⟩
  refine (Bool.or_eq_true_iff.1 (List.all_eq_true.1 hall c hc)).elim (fun h => Bool.or_eq_true_iff.2 (.inl h)) fun h => ?_
  have hmem : c ∈ [' ', '_', '-', ':', '.', '/'] := List.mem_of_mem_dropLast (l := [' ', '_', '-', ':', '.', '/']) (List.contains_iff_mem.1 h)
  exact Bool.or_eq_true_iff.2 (.inr (List.contains_iff_mem.2 hmem))

/-- A path is one word at the end of a script exactly when it stands there as it is. -/
theorem words_path_iff (h : root.head? = some '/') :
    Shell.wordsIn glob (utf8 root) = some [utf8 root] ↔ Shell.Stands glob [] none (utf8 root) := by
  cases root with
  | nil => cases h
  | cons c rest =>
    obtain rfl := Option.some.inj h
    exact Shell.wordsIn_word_iff (c := 0x2f) (by decide)

/-! ## Operations -/

section

variable {op : Operation}

theorem keyToLoad_eq_some : keyToLoad keyFilePath loadedPools mp = some keyFile ↔
    keyFilePath = some keyFile ∧ mp.encrypted = true ∧ mp.pool ∉ loadedPools := by
  simp [keyToLoad, Option.filter_eq_some_iff]

theorem loadKeyFlag_cases : loadKeyFlag loadedPools mp = [] ∨ loadKeyFlag loadedPools mp = "-l".toList := by
  unfold loadKeyFlag
  split
  · exact .inl rfl
  · exact .inr rfl

/-- The commands are for the data sets of the list and for pools with encrypted ones. -/
theorem of_mem_operations (h : op ∈ operations keyFilePath loadedPools mountpoints) :
    ∃ mp ∈ mountpoints, (∃ keyFile, keyFilePath = some keyFile ∧ mp.encrypted = true ∧ op = .loadKey keyFile mp.pool) ∨
      ∃ flag, (flag = [] ∨ flag = "-l".toList) ∧ op = .mount flag mp.name := by
  induction mountpoints generalizing loadedPools with
  | nil => cases h
  | cons mp rest ih =>
    rw [operations_cons, List.mem_append, List.mem_cons, Option.mem_toList, Option.map_eq_some_iff] at h
    rcases h with ⟨keyFile, hkey, rfl⟩ | rfl | h
    · obtain ⟨hfile, hencrypted, -⟩ := keyToLoad_eq_some.1 hkey
      exact ⟨mp, List.mem_cons_self, .inl ⟨keyFile, hfile, hencrypted, rfl⟩⟩
    · exact ⟨mp, List.mem_cons_self, .inr ⟨_, loadKeyFlag_cases, rfl⟩⟩
    · obtain ⟨mp', hmp', h⟩ := ih h
      exact ⟨mp', List.mem_cons_of_mem mp hmp', h⟩

/-- Each data set is mounted. -/
theorem exists_mount (h : mp ∈ mountpoints) :
    ∃ flag, (flag = [] ∨ flag = "-l".toList) ∧ .mount flag mp.name ∈ operations keyFilePath loadedPools mountpoints := by
  induction mountpoints generalizing loadedPools with
  | nil => cases h
  | cons mp' rest ih =>
    rcases List.mem_cons.1 h with rfl | h
    · exact ⟨_, loadKeyFlag_cases, List.mem_append_right _ List.mem_cons_self⟩
    · obtain ⟨flag, hflag, hmem⟩ := ih h
      exact ⟨flag, hflag, List.mem_append_right _ (List.mem_cons_of_mem _ hmem)⟩

/-- The key is loaded if a data set needs it. -/
theorem exists_loadKey (hfile : keyFilePath = some keyFile) (h : mp ∈ mountpoints) (hencrypted : mp.encrypted = true)
    (hpool : mp.pool ∉ loadedPools) : ∃ pool, .loadKey keyFile pool ∈ operations keyFilePath loadedPools mountpoints := by
  induction mountpoints with
  | nil => cases h
  | cons mp' rest ih =>
    rw [operations_cons]
    cases hkey : keyToLoad keyFilePath loadedPools mp' with
    | some keyFile' =>
      obtain rfl := Option.some.inj (hfile.symm.trans (keyToLoad_eq_some.1 hkey).1)
      exact ⟨mp'.pool, List.mem_append_left _ (by simp)⟩
    | none =>
      have hloaded : loadedPoolsAt keyFilePath loadedPools mp' = loadedPools := by
        rw [loadedPoolsAt, hkey]
        rfl
      rcases List.mem_cons.1 h with rfl | h
      · rw [keyToLoad_eq_some.2 ⟨hfile, hencrypted, hpool⟩] at hkey
        cases hkey
      · obtain ⟨pool, hmem⟩ := ih h
        rw [hloaded]
        exact ⟨pool, List.mem_append_right _ (List.mem_cons_of_mem _ hmem)⟩

theorem mountedBy_mount (hflag : flag = [] ∨ flag = "-l".toList) (hname : isDatasetName name = true) :
    mountedBy (some (Operation.mount flag name).args) = some (utf8 name) := by
  have hne : utf8 name ≠ bytes "-l" := by
    intro heq
    rw [utf8_injective heq] at hname
    exact absurd hname (by decide)
  have hfilter : [utf8 name].filter (· ≠ bytes "-l") = [utf8 name] := List.filter_cons_of_pos (decide_eq_true hne)
  have hoperands : ∀ operands, operands.filter (· ≠ bytes "-l") = [utf8 name] →
      mountedBy (some (bytes "zfs" :: bytes "mount" :: operands)) = some (utf8 name) := by
    intro operands h
    simp only [mountedBy, and_self, if_true, h]
  rcases hflag with rfl | rfl
  · exact hoperands [utf8 name] hfilter
  · -- the filter drops the flag
    exact hoperands [utf8 "-l".toList, utf8 name] ((List.filter_cons_of_neg (by decide)).trans hfilter)

theorem mountedBy_loadKey : mountedBy (some (Operation.loadKey keyFile pool).args) = none := by
  have hne : bytes "load-key" ≠ bytes "mount" := by decide
  simp [mountedBy, Operation.args, hne]

/-- The data sets that the commands are meant to mount are those of the list, in its order. -/
theorem filterMap_mountedBy (hnames : ∀ mp ∈ mountpoints, isDatasetName mp.name = true) :
    (operations keyFilePath loadedPools mountpoints).filterMap (fun op => mountedBy (some op.args)) =
      mountpoints.map fun mp => utf8 mp.name := by
  induction mountpoints generalizing loadedPools with
  | nil => rfl
  | cons mp rest ih =>
    have hkey : ((keyToLoad keyFilePath loadedPools mp).map (Operation.loadKey · mp.pool)).toList.filterMap
        (fun op => mountedBy (some op.args)) = [] := by
      cases keyToLoad keyFilePath loadedPools mp with
      | none => rfl
      | some keyFile => simp [mountedBy_loadKey]
    rw [operations_cons, List.filterMap_append, hkey, List.nil_append, List.filterMap_cons,
      mountedBy_mount loadKeyFlag_cases (hnames mp List.mem_cons_self), List.map_cons,
      ih fun mp' hmp' => hnames mp' (List.mem_cons_of_mem mp hmp')]

end

namespace ZfsMount

variable {z : ZfsMount}

/-- The names and paths that ZFS and the host admit. -/
structure Admitted (z : ZfsMount) : Prop where
  root : z.mountPointRoot.head? = some '/'
  names : ∀ mp ∈ z.mountpoints, isDatasetName mp.name = true
  pools : ∀ mp ∈ z.mountpoints, isPoolName mp.pool = true

/-- No name has a blank, and the paths that are used come out as they are outside of quotes. -/
structure Unquoted (z : ZfsMount) (glob : Shell.Word → List Bytes) : Prop where
  root : Shell.Stands glob [] none (utf8 z.mountPointRoot)
  names : ∀ mp ∈ z.mountpoints, ' ' ∉ mp.name ∧ ' ' ∉ mp.pool
  keyFile : ∀ keyFile, z.keyFilePath = some keyFile → (∃ mp ∈ z.mountpoints, mp.encrypted = true) →
    Shell.Stands glob (bytes "file://") (some Shell.Byte.space) (utf8 keyFile)

/-- Commands with such names and paths are what they are meant to be. -/
theorem argv_of_unquoted (h : z.Admitted) (hz : z.Unquoted glob) {op : Operation}
    (hop : op ∈ operations z.keyFilePath [] z.mountpoints) : argv glob op.script = some op.args := by
  obtain ⟨mp, hmp, ⟨keyFile, hfile, hencrypted, rfl⟩ | ⟨flag, hflag, rfl⟩⟩ := of_mem_operations hop
  · refine argv_loadKey_iff.2 ⟨hz.keyFile keyFile hfile ⟨mp, hmp, hencrypted⟩, ?_⟩
    exact (words_name_iff (isDatasetName_of_isPoolName (h.pools mp hmp))).2 (hz.names mp hmp).2
  · exact (argv_mount_iff hflag).2 ((words_name_iff (h.names mp hmp)).2 (hz.names mp hmp).1)

/-- A run of `mount_datasets` runs the scripts of the loop. -/
theorem scripts_mountAll (z : ZfsMount) :
    scripts env z.mountAll = scripts env (mountDatasetsFrom z.envPwds z.keyFilePath 0 [] z.mountpoints) :=
  scripts_bind_left fun _ => rfl

theorem result_mountAll {status : Option Int} (h : z.mountAll.result env = .ok status) :
    (mountDatasetsFrom z.envPwds z.keyFilePath 0 [] z.mountpoints).result env = .ok () := by
  obtain ⟨_, hok, -⟩ := Prog.result_bind_eq_ok.1 h
  exact hok

/-- When every command succeeds, all of them are run. -/
theorem scripts_allSucceed (z : ZfsMount) :
    scripts allSucceed z.mountAll = (operations z.keyFilePath [] z.mountpoints).map Operation.script := by
  have hok : (mountDatasetsFrom z.envPwds z.keyFilePath 0 [] z.mountpoints).result allSucceed = .ok () := result_allSucceed _ _
  rw [scripts_mountAll]
  exact (scripts_mountDatasetsFrom z.envPwds 0).2 hok

theorem map_argv_of_unquoted (h : z.Admitted) (hz : z.Unquoted glob) :
    ((operations z.keyFilePath [] z.mountpoints).map Operation.script).map (argv glob) =
      (operations z.keyFilePath [] z.mountpoints).map fun op => some op.args := by
  rw [List.map_map]
  exact List.map_congr_left fun op hop => argv_of_unquoted h hz hop

theorem isPoolName_of_mem_uniquePools (h : z.Admitted) : ∀ pool ∈ uniquePools z.mountpoints, isPoolName pool = true := by
  intro pool hpool
  obtain ⟨mp, hmp, rfl⟩ := mem_uniquePools.1 hpool
  exact h.pools mp hmp

/-- Each command is the one that it is meant to be. -/
theorem CommandsIntact.argv_script (h : z.CommandsIntact glob) {op : Operation} (hop : op ∈ operations z.keyFilePath [] z.mountpoints) :
    argv glob op.script = some op.args := by
  have hissued := h.issued allSucceed
  rw [scripts_allSucceed, List.map_map] at hissued
  have hmap := hissued.eq_of_length (by simp only [List.length_map])
  exact List.map_inj_left.1 hmap op hop

/-- The pools are exported by commands with one name. -/
theorem CommandsIntact.blank_notMem_pool (h : z.CommandsIntact glob) (ha : z.Admitted) {pool : List Char}
    (hpool : pool ∈ uniquePools z.mountpoints) : ' ' ∉ pool := by
  have hexported := h.exported
  rw [andList_zfsExportScript (isPoolName_of_mem_uniquePools ha)] at hexported
  have htokens := List.map_inj_left.1 hexported pool (List.mem_reverse.2 hpool)
  have hself : pool ∈ Shell.tokens pool := by
    rw [(List.cons.inj (List.cons.inj htokens).2).2]
    exact List.mem_singleton_self pool
  exact Shell.blank_notMem_of_mem_tokens hself

/-- The commands have every name and path as one argument exactly when no name has a blank, and the mount root and, if it is used,
the path of the key file come out as they are outside of quotes. -/
theorem commandsIntact_iff (h : z.Admitted) : z.CommandsIntact glob ↔ z.Unquoted glob := by
  constructor
  · intro hz
    refine ⟨(words_path_iff h.root).1 ((argv_import_iff z.readOnly).1 hz.imported), ?_, ?_⟩
    · intro mp hmp
      obtain ⟨flag, hflag, hop⟩ : ∃ flag, (flag = [] ∨ flag = "-l".toList) ∧
          Operation.mount flag mp.name ∈ operations z.keyFilePath [] z.mountpoints := exists_mount hmp
      refine ⟨(words_name_iff (h.names mp hmp)).1 ((argv_mount_iff hflag).1 (hz.argv_script hop)), ?_⟩
      exact hz.blank_notMem_pool h (mem_uniquePools.2 ⟨mp, hmp, rfl⟩)
    · rintro keyFile hfile ⟨mp, hmp, hencrypted⟩
      obtain ⟨pool, hop⟩ := exists_loadKey hfile hmp hencrypted List.not_mem_nil
      exact (argv_loadKey_iff.1 (hz.argv_script hop)).1
  · intro hz
    refine ⟨(argv_import_iff z.readOnly).2 ((words_path_iff h.root).2 hz.root), ?_, ?_, ?_⟩
    · intro env
      rw [← map_argv_of_unquoted h hz, scripts_mountAll]
      exact (scripts_mountDatasetsFrom z.envPwds 0).1.map (argv glob)
    · intro env status hok
      rw [scripts_mountAll, (scripts_mountDatasetsFrom z.envPwds 0).2 (result_mountAll hok), map_argv_of_unquoted h hz,
        List.filterMap_map]
      exact filterMap_mountedBy h.names
    · rw [andList_zfsExportScript (isPoolName_of_mem_uniquePools h)]
      refine List.map_congr_left fun pool hpool => ?_
      obtain ⟨mp, hmp, rfl⟩ := mem_uniquePools.1 (List.mem_reverse.1 hpool)
      rw [Shell.tokens_of_word (ne_nil_of_isPoolName (h.pools mp hmp)) (hz.names mp hmp).2]

end ZfsMount

/-- Encrypted data sets of two pools without blanks in their names, below a directory that is a pattern. -/
def tankMount : ZfsMount where
  mountPointRoot := "/mnt/tank?".toList
  readOnly := false
  mountpoints := [{ name := "tank/data".toList, path := "/data".toList, pool := "tank".toList, encrypted := true },
    { name := "home".toList, path := "/home".toList, pool := "home".toList, encrypted := false }]
  envPwds := []
  keyFilePath := some "/tmp/key".toList

/-- The pattern finds the directory and nothing else. -/
def tankFiles (w : Shell.Word) : List Bytes := if Shell.text w = bytes "/mnt/tank?" then [bytes "/mnt/tank?"] else []

theorem commandsIntact_tank : tankMount.CommandsIntact tankFiles := by
  refine (ZfsMount.commandsIntact_iff ⟨rfl, ?_, ?_⟩).2 ⟨⟨by decide, fun _ => .inr (by decide)⟩, ?_, ?_⟩
  · exact List.forall_mem_cons.2 ⟨by decide, List.forall_mem_singleton.2 (by decide)⟩
  · exact List.forall_mem_cons.2 ⟨by decide, List.forall_mem_singleton.2 (by decide)⟩
  · exact List.forall_mem_cons.2 ⟨by decide, List.forall_mem_singleton.2 (by decide)⟩
  · rintro keyFile hfile -
    rw [← Option.some.inj hfile]
    exact ⟨by decide, by decide⟩

/-- A data set with a blank in its name. -/
def blankMount : ZfsMount where
  mountPointRoot := "/mnt/tank".toList
  readOnly := false
  mountpoints := [{ name := "tank/my data".toList, path := "/my data".toList, pool := "tank".toList, encrypted := false }]
  envPwds := []
  keyFilePath := none

/-- `zfs mount -l tank/my data` mounts `tank/my` and `data`. -/
theorem commandsIntact_false : blankMount.Admitted ∧ ∀ glob, ¬ blankMount.CommandsIntact glob := by
  have hadmitted : blankMount.Admitted :=
    ⟨rfl, List.forall_mem_singleton.2 (by decide), List.forall_mem_singleton.2 (by decide)⟩
  refine ⟨hadmitted, fun glob h => ?_⟩
  have hop : .mount "-l".toList "tank/my data".toList ∈ operations blankMount.keyFilePath [] blankMount.mountpoints :=
    List.mem_cons_self
  have hmount := (argv_mount_iff (.inr rfl)).1 (h.argv_script hop)
  have hname : isDatasetName "tank/my data".toList = true := by decide
  exact (words_name_iff hname).1 hmount (by decide)

end Zfs

end Anylinuxfs
