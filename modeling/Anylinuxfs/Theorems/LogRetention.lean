import Anylinuxfs.LogRetention
import Mathlib.Data.List.Perm.Subperm

/-!
# What is kept of the log files

An instance keeps its logs as long as it serves, whatever other mounts do, once nobody who is about to clean up has looked before
it began to serve. Mounts that clean up in turn leave a bounded number of log files behind.
-/

namespace Anylinuxfs

namespace LogRetention

open Transition

/-! ## Names -/

/-- The name of a main log, spelled out. -/
theorem mainLog_eq (id : List Char) :
    mainLog id = ['a', 'n', 'y', 'l', 'i', 'n', 'u', 'x', 'f', 's'] ++ id ++ ['.', 'l', 'o', 'g'] := rfl

/-- The name of a kernel log, spelled out. -/
theorem kernelLog_eq (id : List Char) :
    kernelLog id =
      ['a', 'n', 'y', 'l', 'i', 'n', 'u', 'x', 'f', 's', '_', 'k', 'e', 'r', 'n', 'e', 'l'] ++ id ++ ['.', 'l', 'o', 'g'] := rfl

/-- The name of a log of the network helper, spelled out. -/
theorem nethelperLog_eq (id : List Char) :
    nethelperLog id =
      ['a', 'n', 'y', 'l', 'i', 'n', 'u', 'x', 'f', 's', '_', 'n', 'e', 't', 'h', 'e', 'l', 'p', 'e', 'r'] ++ id ++
        ['.', 'l', 'o', 'g'] := rfl

/-- What the name of a main log looks like, spelled out. -/
theorem isLogName_eq (fname : List Char) :
    isLogName fname =
      ((['a', 'n', 'y', 'l', 'i', 'n', 'u', 'x', 'f', 's', '-'].isPrefixOf fname ||
          ['a', 'n', 'y', 'l', 'i', 'n', 'u', 'x', 'f', 's', '.'].isPrefixOf fname) &&
        ['.', 'l', 'o', 'g'].isSuffixOf fname) := rfl

/-- A kernel log is no main log. -/
@[simp] theorem isLogName_kernelLog (id : List Char) : isLogName (kernelLog id) = false := by
  simp [isLogName_eq, kernelLog_eq]

/-- A log of the network helper is no main log. -/
@[simp] theorem isLogName_nethelperLog (id : List Char) : isLogName (nethelperLog id) = false := by
  simp [isLogName_eq, nethelperLog_eq]

/-- A kernel log has the id in its name. -/
@[simp] theorem kernelLog_inj {id id' : List Char} : kernelLog id = kernelLog id' ↔ id = id' := by simp [kernelLog_eq]

/-- A log of the network helper has the id in its name. -/
@[simp] theorem nethelperLog_inj {id id' : List Char} : nethelperLog id = nethelperLog id' ↔ id = id' := by
  simp [nethelperLog_eq]

/-- A kernel log is no log of the network helper. -/
@[simp] theorem kernelLog_ne_nethelperLog (id id' : List Char) : kernelLog id ≠ nethelperLog id' := by
  simp [kernelLog_eq, nethelperLog_eq]

/-- The main log of an instance is no kernel log. -/
theorem mainLog_ne_kernelLog (id id' : List Char) : mainLog ('-' :: id) ≠ kernelLog id' := by simp [mainLog_eq, kernelLog_eq]

/-- The main log of an instance is no log of the network helper. -/
theorem mainLog_ne_nethelperLog (id id' : List Char) : mainLog ('-' :: id) ≠ nethelperLog id' := by
  simp [mainLog_eq, nethelperLog_eq]

/-- What is left of a name without its ends is in between. -/
theorem dropPrefix_dropSuffix_eq_some {fname first last id : List Char} :
    (fname.dropPrefix? first).bind (·.dropSuffix? last) = some id ↔ fname = first ++ id ++ last := by
  simp only [Option.bind_eq_some_iff, List.dropPrefix?_eq_some_iff, List.dropSuffix?_eq_some_iff, beq_iff_eq]
  constructor
  · rintro ⟨rest, ⟨before, rfl, rfl⟩, after, rfl, rfl⟩
    exact (List.append_assoc ..).symm
  · intro h
    exact ⟨id ++ last, ⟨first, by rw [h, List.append_assoc], rfl⟩, last, rfl, rfl⟩

/-- The id is cut out of the name of a main log. -/
theorem idPart_eq_some {fname id : List Char} : idPart fname = some id ↔ fname = mainLog id := dropPrefix_dropSuffix_eq_some

/-- A log is removed with itself. -/
theorem self_mem_removedWith (fname : List Char) : fname ∈ removedWith fname := by
  unfold removedWith
  split <;> simp

/-- Nothing of a mount is removed with the log of another one. -/
theorem eq_mainLog_of_mem_removedWith {id fname n : List Char}
    (hn : n ∈ [mainLog ('-' :: id), kernelLog ('-' :: id), nethelperLog ('-' :: id)]) (hlog : isLogName fname = true)
    (h : n ∈ removedWith fname) : fname = mainLog ('-' :: id) := by
  have hkernel : ∀ id, fname ≠ kernelLog id := by
    rintro id rfl
    simp at hlog
  have hnethelper : ∀ id, fname ≠ nethelperLog id := by
    rintro id rfl
    simp at hlog
  simp only [List.mem_cons, List.not_mem_nil, or_false] at hn
  unfold removedWith at h
  split at h
  case h_1 id' hid =>
    obtain rfl := idPart_eq_some.1 hid
    simp only [List.mem_cons, List.not_mem_nil, or_false] at h
    rcases hn with rfl | rfl | rfl
    · rcases h with h | h | h
      · exact h.symm
      · exact absurd h (mainLog_ne_kernelLog _ _)
      · exact absurd h (mainLog_ne_nethelperLog _ _)
    · rcases h with h | h | h
      · exact absurd h.symm (hkernel _)
      · rw [kernelLog_inj.1 h]
      · exact absurd h (kernelLog_ne_nethelperLog _ _)
    · rcases h with h | h | h
      · exact absurd h.symm (hnethelper _)
      · exact absurd h.symm (kernelLog_ne_nethelperLog _ _)
      · rw [nethelperLog_inj.1 h]
  case h_2 =>
    simp only [List.mem_cons, List.not_mem_nil, or_false] at h
    subst h
    rcases hn with h | h | h
    · exact h
    · exact absurd h (hkernel _)
    · exact absurd h (hnethelper _)

/-! ## Files and their names -/

variable {files : List LogFile} {removes : List Char → Bool}

/-- A removal takes the file of the name away, if it succeeds. -/
theorem mem_removeFile {f : LogFile} {fname : List Char} :
    f ∈ removeFile removes files fname ↔ f ∈ files ∧ ¬(f.name = fname ∧ removes fname = true) := by
  unfold removeFile
  split <;> simp_all

/-- What is left after some removals. -/
theorem mem_foldl_removeFile {f : LogFile} (names : List (List Char)) :
    f ∈ names.foldl (removeFile removes) files ↔ f ∈ files ∧ ¬(f.name ∈ names ∧ removes f.name = true) := by
  induction names generalizing files with
  | nil => simp
  | cons fname names ih =>
    rw [List.foldl_cons, ih, mem_removeFile, List.mem_cons]
    constructor
    · rintro ⟨⟨hf, hfirst⟩, hrest⟩
      refine ⟨hf, fun ⟨hmem, hremoves⟩ => ?_⟩
      rcases hmem with rfl | hmem
      · exact hfirst ⟨rfl, hremoves⟩
      · exact hrest ⟨hmem, hremoves⟩
    · rintro ⟨hf, h⟩
      refine ⟨⟨hf, ?_⟩, fun hrest => h ⟨.inr hrest.1, hrest.2⟩⟩
      rintro ⟨rfl, hremoves⟩
      exact h ⟨.inl rfl, hremoves⟩

/-- A removal adds nothing. -/
theorem removeFile_sublist (fname : List Char) : (removeFile removes files fname).Sublist files := by
  unfold removeFile
  split
  · exact List.filter_sublist
  · exact List.Sublist.refl _

/-- Removals add nothing. -/
theorem foldl_removeFile_sublist (names : List (List Char)) : (names.foldl (removeFile removes) files).Sublist files := by
  induction names generalizing files with
  | nil => exact List.Sublist.refl _
  | cons fname names ih => exact ih.trans (removeFile_sublist fname)

/-- A write makes no new file. -/
@[simp] theorem names_writeFile (fname : List Char) (now : Nat) :
    (writeFile files fname now).map LogFile.name = files.map LogFile.name := by
  unfold writeFile
  rw [List.map_map]
  refine List.map_congr_left fun f _ => ?_
  simp only [Function.comp]
  split <;> rfl

/-- A file that is created is there already or is the only new one. -/
theorem names_createFile (files : List LogFile) (fname : List Char) (now : Nat) :
    (createFile files fname now).map LogFile.name = files.map LogFile.name ∨
      fname ∉ files.map LogFile.name ∧ (createFile files fname now).map LogFile.name = files.map LogFile.name ++ [fname] := by
  unfold createFile
  split
  · exact .inl (names_writeFile fname now)
  · next hnew => exact .inr ⟨hnew, by simp⟩

/-- The files that were there stay. -/
theorem mem_names_createFile {n : List Char} (fname : List Char) (now : Nat) (h : n ∈ files.map LogFile.name) :
    n ∈ (createFile files fname now).map LogFile.name := by
  rcases names_createFile files fname now with heq | ⟨-, heq⟩
  · rw [heq]
    exact h
  · rw [heq]
    exact List.mem_append_left _ h

/-- No name is there twice. -/
theorem nodup_names_createFile (fname : List Char) (now : Nat) (h : (files.map LogFile.name).Nodup) :
    ((createFile files fname now).map LogFile.name).Nodup := by
  rcases names_createFile files fname now with heq | ⟨hnew, heq⟩
  · rw [heq]
    exact h
  · rw [heq]
    refine List.nodup_append.2 ⟨h, List.nodup_singleton _, ?_⟩
    intro a ha b hb hab
    rw [List.mem_singleton] at hb
    exact hnew (hb ▸ hab ▸ ha)

/-! ## The clean-up -/

variable {logDir : List Char} {active : List LogPath}

/-- A clean-up leaves what goes with no old log, and what it fails to remove. -/
theorem mem_cleanupOldLogs {f : LogFile} :
    f ∈ cleanupOldLogs logDir removes active files ↔
      f ∈ files ∧ ¬((∃ old ∈ oldLogs logDir active files, f.name ∈ removedWith old.name) ∧ removes f.name = true) := by
  rw [cleanupOldLogs, mem_foldl_removeFile, List.mem_flatMap]

/-- An old log has the name of a main log and belongs to no active instance. -/
theorem of_mem_oldLogs {f : LogFile} (h : f ∈ oldLogs logDir active files) :
    isLogName f.name = true ∧ ⟨logDir, f.name⟩ ∉ active := by
  unfold oldLogs newestFirst collectFilesWithMtime at h
  rw [List.mem_filter] at h
  have hmem := List.mem_mergeSort.1 (List.mem_of_mem_drop h.1)
  exact ⟨(List.mem_filter.1 hmem).2, by simpa using h.2⟩

/-- A clean-up that knows of an instance leaves its logs alone. -/
theorem mem_names_cleanupOldLogs {id n : List Char}
    (hn : n ∈ [mainLog ('-' :: id), kernelLog ('-' :: id), nethelperLog ('-' :: id)])
    (hactive : ⟨logDir, mainLog ('-' :: id)⟩ ∈ active) (h : n ∈ files.map LogFile.name) :
    n ∈ (cleanupOldLogs logDir removes active files).map LogFile.name := by
  obtain ⟨f, hf, rfl⟩ := List.mem_map.1 h
  refine List.mem_map.2 ⟨f, mem_cleanupOldLogs.2 ⟨hf, ?_⟩, rfl⟩
  rintro ⟨⟨old, hold, hremoved⟩, -⟩
  obtain ⟨hlog, hinactive⟩ := of_mem_oldLogs hold
  rw [eq_mainLog_of_mem_removedWith hn hlog hremoved] at hinactive
  exact hinactive hactive

/-- Of the log files, a clean-up leaves the newest and those of active instances. -/
theorem length_cleanupOldLogs (hremoves : ∀ fname, removes fname = true) (hnames : (files.map LogFile.name).Nodup) :
    (collectFilesWithMtime (cleanupOldLogs logDir removes active files) isLogName).length ≤
      retentionCount active + active.dedup.length := by
  let sorted := newestFirst (collectFilesWithMtime files isLogName)
  let kept := (sorted.take (retentionCount active)).map LogFile.name ++ active.dedup.map LogPath.name
  let left := collectFilesWithMtime (cleanupOldLogs logDir removes active files) isLogName
  have hsublist : left.Sublist files := List.filter_sublist.trans (foldl_removeFile_sublist _)
  have hsub : left.map LogFile.name ⊆ kept := by
    intro n hn
    obtain ⟨f, hf, rfl⟩ := List.mem_map.1 hn
    obtain ⟨hleft, hlog⟩ := List.mem_filter.1 hf
    obtain ⟨hmem, hkept⟩ := mem_cleanupOldLogs.1 hleft
    have hsorted : f ∈ sorted := List.mem_mergeSort.2 (List.mem_filter.2 ⟨hmem, hlog⟩)
    rw [← List.take_append_drop (retentionCount active) sorted, List.mem_append] at hsorted
    rcases hsorted with htake | hdrop
    · exact List.mem_append_left _ (List.mem_map_of_mem htake)
    · by_cases hactive : (⟨logDir, f.name⟩ : LogPath) ∈ active
      · exact List.mem_append_right _ (List.mem_map.2 ⟨_, List.mem_dedup.2 hactive, rfl⟩)
      · have hold : f ∈ oldLogs logDir active files := List.mem_filter.2 ⟨hdrop, by simpa using hactive⟩
        exact absurd ⟨⟨f, hold, self_mem_removedWith _⟩, hremoves _⟩ hkept
  have hlength := ((hnames.sublist (hsublist.map _)).subperm hsub).length_le
  calc left.length = (left.map LogFile.name).length := (List.length_map _).symm
    _ ≤ kept.length := hlength
    _ ≤ retentionCount active + active.dedup.length := by
      simp only [kept, List.length_append, List.length_map, List.length_take]
      omega

/-! ## What a step does -/

namespace LogSys

variable {I : Type} [DecidableEq I] {id : I → List Char} {s s' : LogSys I} {i : I}

/-- A step of a mount: it looks for active instances, cleans up, makes its log, begins to serve, writes to a log, opens one of its
other logs, or ends. -/
theorem step_cases {a : Act I} (h : step logDir id s a = some s') :
    (∃ j active, s.phase j = .idle ∧ (∀ k ∈ s.serving, logPath logDir id k ∈ active) ∧
      s' = { s with phase := Function.update s.phase j (.discovered active) }) ∨
    (∃ j removes active, a = .cleanup j removes ∧ s.phase j = .discovered active ∧
      s' = { s with files := cleanupOldLogs logDir removes active s.files, phase := Function.update s.phase j .cleaned }) ∨
    (∃ j removes now, s.phase j = .cleaned ∧
      s' = { s with files := removeFile removes (createFile s.files (mainLog (logId id j)) now) (kernelLog (logId id j)),
                    phase := Function.update s.phase j .logging }) ∨
    (∃ j, s.phase j = .logging ∧ s' = { s with serving := s.serving ++ [j] }) ∨
    (∃ fname now, s' = { s with files := writeFile s.files fname now }) ∨
    (∃ fname now, isLogName fname = false ∧ s' = { s with files := createFile s.files fname now }) ∨
    (∃ j, s' = { s with phase := Function.update s.phase j .over, serving := s.serving.filter (· ≠ j) }) := by
  cases a with
  | discover j elsewhere =>
    simp only [step] at h
    split at h
    · next hidle =>
        cases h
        exact .inl ⟨j, _, hidle, fun k hk => List.mem_append_left _ (List.mem_map_of_mem hk), rfl⟩
    · cases h
  | cleanup j removes =>
    simp only [step] at h
    split at h
    · next active hphase =>
        cases h
        exact .inr (.inl ⟨j, removes, active, rfl, hphase, rfl⟩)
    · cases h
  | initLogFile j removes now =>
    simp only [step] at h
    split at h
    · next hphase =>
        cases h
        exact .inr (.inr (.inl ⟨j, removes, now, hphase, rfl⟩))
    · cases h
  | serve j =>
    simp only [step] at h
    split at h
    · next hphase =>
        cases h
        exact .inr (.inr (.inr (.inl ⟨j, hphase.1, rfl⟩)))
    · cases h
  | write j now =>
    simp only [step] at h
    split at h
    · cases h
      exact .inr (.inr (.inr (.inr (.inl ⟨_, now, rfl⟩))))
    · cases h
  | openKernelLog j now =>
    simp only [step] at h
    split at h
    · cases h
      exact .inr (.inr (.inr (.inr (.inr (.inl ⟨_, now, isLogName_kernelLog _, rfl⟩)))))
    · cases h
  | openNethelperLog j now =>
    simp only [step] at h
    split at h
    · cases h
      exact .inr (.inr (.inr (.inr (.inr (.inl ⟨_, now, isLogName_nethelperLog _, rfl⟩)))))
    · cases h
  | finish j =>
    simp only [step] at h
    split at h
    · cases h
      exact .inr (.inr (.inr (.inr (.inr (.inr ⟨j, rfl⟩)))))
    · cases h

/-- A step of a mount in another phase leaves the phase of this one. -/
theorem phase_update {p phase : Phase} {j : I} (hi : s.phase i = p) (hj : s.phase j ≠ p) :
    Function.update s.phase j phase i = p := by
  rw [Function.update_of_ne]
  · exact hi
  · rintro rfl
    exact hj hi

/-! ## The logs of an instance that serves -/

/-- Only mounts that have a log serve. -/
theorem logging_of_serving {ok : LogSys I → Act I → Prop} (h : Reach (step logDir id) ok (init files) s) :
    ∀ i ∈ s.serving, s.phase i = .logging := by
  refine Reach.invariant (fun s => ∀ i ∈ s.serving, s.phase i = .logging) (fun _ hmem => absurd hmem List.not_mem_nil)
    (fun s a s' ih _ hs => ?_) h
  rcases step_cases hs with ⟨j, active, hj, -, rfl⟩ | ⟨j, removes, active, -, hj, rfl⟩ | ⟨j, removes, now, hj, rfl⟩ | ⟨j, hj, rfl⟩ |
    ⟨_, _, rfl⟩ | ⟨_, _, -, rfl⟩ | ⟨j, rfl⟩
  · exact fun i hi => phase_update (ih i hi) (by simp [hj])
  · exact fun i hi => phase_update (ih i hi) (by simp [hj])
  · exact fun i hi => phase_update (ih i hi) (by simp [hj])
  · intro i hi
    rcases List.mem_append.1 hi with hi | hi
    · exact ih i hi
    · rw [List.mem_singleton.1 hi]
      exact hj
  · exact ih
  · exact ih
  · intro i hi
    obtain ⟨hmem, hne⟩ := List.mem_filter.1 hi
    exact (Function.update_of_ne (by simpa using hne) ..).trans (ih i hmem)

/-- What holds of an instance and a log of it, as long as it serves. -/
structure Kept (logDir : List Char) (id : I → List Char) (i : I) (fname : List Char) (s : LogSys I) : Prop where
  there : fname ∈ s.files.map LogFile.name
  known : s.Known logDir id i
  serving : i ∈ s.serving
  logging : s.phase i = .logging

/-- An instance stays known when another one goes on. -/
theorem known_update {j : I} {phase : Phase} {files : List LogFile} {serving : List I} (h : s.Known logDir id i)
    (hphase : phase.Knows (logPath logDir id i)) :
    Known logDir id i ⟨files, Function.update s.phase j phase, serving⟩ := by
  intro k
  by_cases hkj : k = j
  · subst hkj
    show (Function.update s.phase k phase k).Knows _
    rw [Function.update_self]
    exact hphase
  · show (Function.update s.phase j phase k).Knows _
    rw [Function.update_of_ne hkj]
    exact h k

/-- A step of another mount. -/
theorem Kept.update {fname : List Char} {j : I} {phase : Phase} {files : List LogFile} (h : Kept logDir id i fname s)
    (hj : s.phase j ≠ .logging) (hthere : fname ∈ files.map LogFile.name)
    (hknown : phase.Knows (logPath logDir id i)) :
    Kept logDir id i fname ⟨files, Function.update s.phase j phase, s.serving⟩ :=
  ⟨hthere, known_update h.known hknown, h.serving, phase_update h.logging hj⟩

/-- A step keeps the logs of an instance, unless it is its end. -/
theorem Kept.step (hid : Function.Injective id) {fname : List Char} (hown : fname ∈ ownLogs id i) {a : Act I}
    (h : Kept logDir id i fname s) (hs : step logDir id s a = some s') :
    Kept logDir id i fname s' ∨ i ∉ s'.serving ∧ s'.phase i = .over := by
  rcases step_cases hs with ⟨j, active, hj, hactive, rfl⟩ | ⟨j, removes, active, -, hj, rfl⟩ | ⟨j, removes, now, hj, rfl⟩ |
    ⟨j, hj, rfl⟩ | ⟨_, _, rfl⟩ | ⟨_, _, -, rfl⟩ | ⟨j, rfl⟩
  · exact .inl (h.update (by simp [hj]) h.there (hactive i h.serving))
  · have hknows := h.known j
    rw [hj] at hknows
    exact .inl (h.update (by simp [hj]) (mem_names_cleanupOldLogs hown hknows h.there) trivial)
  · refine .inl (h.update (by simp [hj]) ?_ trivial)
    obtain ⟨f, hf, rfl⟩ := List.mem_map.1 (mem_names_createFile (mainLog (logId id j)) now h.there)
    refine List.mem_map.2 ⟨f, mem_removeFile.2 ⟨hf, fun hkernel => ?_⟩, rfl⟩
    -- the kernel log that is removed has the name of another mount
    have hij : i = j := by
      rw [hkernel.1] at hown
      simp only [ownLogs, List.mem_cons, List.not_mem_nil, or_false] at hown
      rcases hown with hmain | hsame | hnethelper
      · exact absurd hmain.symm (mainLog_ne_kernelLog _ _)
      · exact (hid (List.cons.inj (kernelLog_inj.1 hsame)).2).symm
      · exact absurd hnethelper (kernelLog_ne_nethelperLog _ _)
    rw [← hij, h.logging] at hj
    cases hj
  · exact .inl ⟨h.there, h.known, List.mem_append_left _ h.serving, h.logging⟩
  · exact .inl ⟨by rw [names_writeFile]; exact h.there, h.known, h.serving, h.logging⟩
  · exact .inl ⟨mem_names_createFile _ _ h.there, h.known, h.serving, h.logging⟩
  · by_cases hij : i = j
    · subst hij
      exact .inr ⟨fun hmem => by simp at hmem, Function.update_self ..⟩
    · exact .inl ⟨h.there, known_update h.known trivial, List.mem_filter.2 ⟨h.serving, by simpa using hij⟩,
        (Function.update_of_ne hij ..).trans h.logging⟩

/-- An instance that is over does not serve again. -/
theorem over_step {a : Act I} (hover : s.phase i = .over) (hnot : i ∉ s.serving) (hs : step logDir id s a = some s') :
    i ∉ s'.serving ∧ s'.phase i = .over := by
  rcases step_cases hs with ⟨j, active, hj, -, rfl⟩ | ⟨j, removes, active, -, hj, rfl⟩ | ⟨j, removes, now, hj, rfl⟩ | ⟨j, hj, rfl⟩ |
    ⟨_, _, rfl⟩ | ⟨_, _, -, rfl⟩ | ⟨j, rfl⟩
  · exact ⟨hnot, phase_update hover (by simp [hj])⟩
  · exact ⟨hnot, phase_update hover (by simp [hj])⟩
  · exact ⟨hnot, phase_update hover (by simp [hj])⟩
  · refine ⟨fun hmem => ?_, hover⟩
    rcases List.mem_append.1 hmem with hmem | hmem
    · exact hnot hmem
    · rw [← List.mem_singleton.1 hmem, hover] at hj
      cases hj
  · exact ⟨hnot, hover⟩
  · exact ⟨hnot, hover⟩
  · refine ⟨fun hmem => hnot (List.mem_filter.1 hmem).1, ?_⟩
    by_cases hij : i = j
    · subst hij
      exact Function.update_self ..
    · exact (Function.update_of_ne hij ..).trans hover

/-- Once every mount that is about to clean up knows of an instance, none of its logs is deleted as long as it serves, whatever
the mounts do and in whatever order. -/
theorem kept_of_serving (hid : Function.Injective id) (h : Reach (step logDir id) Any (init files) s) (hi : i ∈ s.serving)
    (hknown : s.Known logDir id i) {fname : List Char} (hown : fname ∈ ownLogs id i)
    (hthere : fname ∈ s.files.map LogFile.name) (h' : Reach (step logDir id) Any s s') (hi' : i ∈ s'.serving) :
    fname ∈ s'.files.map LogFile.name := by
  have hkept : Kept logDir id i fname s := ⟨hthere, hknown, hi, logging_of_serving h i hi⟩
  have hinv := h'.invariant (fun t => Kept logDir id i fname t ∨ i ∉ t.serving ∧ t.phase i = .over) (.inl hkept)
    fun t a t' ht _ hs => ht.elim (fun hk => hk.step hid hown hs) fun ho => .inr (over_step ho.2 ho.1 hs)
  exact (hinv.resolve_right fun ho => ho.1 hi').there

/-- The names that two mounts have drawn. -/
def sampleId (second : Bool) : List Char := if second then ['b'] else ['a']

/-- A mount serves; another one looks for active instances, cleans up and makes its own log. -/
theorem kept_of_serving_second : ∃ s s' : LogSys Bool,
    Reach (step "logs".toList sampleId) Any (init []) s ∧ Reach (step "logs".toList sampleId) Any s s' ∧
      s'.phase true = .logging ∧ mainLog ['-', 'a'] ∈ s'.files.map LogFile.name := by
  have hid : ∀ i j, sampleId i = sampleId j → i = j := by decide
  obtain ⟨s, h, hi, hknown, hthere, hrest⟩ := exists_reach (step "logs".toList sampleId) Any
    (fun s => false ∈ s.serving ∧ (∀ j, (s.phase j).Knows (logPath "logs".toList sampleId false)) ∧
      mainLog ['-', 'a'] ∈ s.files.map LogFile.name ∧
      (Transition.run (step "logs".toList sampleId) s [.discover true [], .cleanup true fun _ => true, .initLogFile true (fun _ => true) 2]).any
        (fun s' => decide (false ∈ s'.serving ∧ s'.phase true = .logging)) = true)
    (init []) [.discover false [], .cleanup false fun _ => true, .initLogFile false (fun _ => true) 1, .serve false]
    (by decide +kernel)
  obtain ⟨s', hrun, hs'⟩ := (Option.any_eq_true _ _).1 hrest
  obtain ⟨hi', hsecond⟩ := of_decide_eq_true hs'
  have h' : Reach (step "logs".toList sampleId) Any s s' := reach_of_run hrun
  exact ⟨s, s', h, h', hsecond, kept_of_serving (fun i j => hid i j) h hi hknown (by decide) hthere h' hi'⟩

/-! ## How many log files there are -/

/-- The logs that are collected are the files with such names. -/
theorem length_collect (files : List LogFile) :
    (collectFilesWithMtime files isLogName).length = ((files.map LogFile.name).filter isLogName).length := by
  rw [List.filter_map, List.length_map]
  rfl

/-- A write changes the number of the logs by none. -/
theorem length_collect_writeFile (files : List LogFile) (fname : List Char) (now : Nat) :
    (collectFilesWithMtime (writeFile files fname now) isLogName).length = (collectFilesWithMtime files isLogName).length := by
  rw [length_collect, length_collect, names_writeFile]

/-- A file that is created is one more log at most. -/
theorem length_collect_createFile (files : List LogFile) (fname : List Char) (now : Nat) :
    (collectFilesWithMtime (createFile files fname now) isLogName).length ≤
      (collectFilesWithMtime files isLogName).length + (isLogName fname).toNat := by
  rw [length_collect, length_collect]
  rcases names_createFile files fname now with heq | ⟨-, heq⟩
  · rw [heq]
    exact Nat.le_add_right ..
  · rw [heq, List.filter_append, List.length_append]
    cases hlog : isLogName fname <;> simp [hlog]

/-- The most log files that a clean-up leaves which hears of so many instances. -/
def maxKept (m : Nat) : Nat := max m (logRetentionCount - 1) + m

/-- What holds of the directory between the steps of mounts that clean up in turn. -/
structure Bounded (m : Nat) (s : LogSys I) : Prop where
  nodup : (s.files.map LogFile.name).Nodup
  alone : ∀ i j, s.phase i = .cleaned → s.phase j = .cleaned → i = j
  cleaned : ∀ i, s.phase i = .cleaned → s.mainLogs.length ≤ maxKept m
  logging : ∀ i, s.phase i = .logging → s.mainLogs.length ≤ maxKept m + 1

omit [DecidableEq I] in
/-- A step that makes no log file and ends no clean-up. -/
theorem Bounded.mono {m : Nat} {files : List LogFile} {phase : I → Phase} {serving : List I} (h : Bounded m s)
    (hnodup : (files.map LogFile.name).Nodup)
    (hlength : (collectFilesWithMtime files isLogName).length ≤ s.mainLogs.length)
    (hphase : ∀ i, phase i = s.phase i ∨ phase i ≠ .cleaned ∧ phase i ≠ .logging) : Bounded m ⟨files, phase, serving⟩ := by
  have hcleaned : ∀ i, phase i = .cleaned → s.phase i = .cleaned := fun i hi =>
    (hphase i).elim (fun hsame => hsame.symm.trans hi) fun hne => absurd hi hne.1
  have hlogging : ∀ i, phase i = .logging → s.phase i = .logging := fun i hi =>
    (hphase i).elim (fun hsame => hsame.symm.trans hi) fun hne => absurd hi hne.2
  exact ⟨hnodup, fun i j hi hj => h.alone i j (hcleaned i hi) (hcleaned j hj),
    fun i hi => Nat.le_trans hlength (h.cleaned i (hcleaned i hi)),
    fun i hi => Nat.le_trans hlength (h.logging i (hlogging i hi))⟩

/-- An instance that has not come to its clean-up is in no phase behind it. -/
theorem update_eq_or {j : I} {phase : Phase} (hphase : phase ≠ .cleaned ∧ phase ≠ .logging) (i : I) :
    Function.update s.phase j phase i = s.phase i ∨
      Function.update s.phase j phase i ≠ .cleaned ∧ Function.update s.phase j phase i ≠ .logging := by
  by_cases hij : i = j
  · subst hij
    rw [Function.update_self]
    exact .inr hphase
  · exact .inl (Function.update_of_ne hij ..)

/-- A step of a mount keeps the bound, if the mounts take turns. -/
theorem Bounded.step {m : Nat} {a : Act I} (h : Bounded m s) (hturn : InTurn m s a) (hs : step logDir id s a = some s') :
    Bounded m s' := by
  rcases step_cases hs with ⟨j, active, -, -, rfl⟩ | ⟨j, removes, active, rfl, hj, rfl⟩ | ⟨j, removes, now, hj, rfl⟩ | ⟨j, -, rfl⟩ |
    ⟨_, _, rfl⟩ | ⟨fname, now, hlog, rfl⟩ | ⟨j, rfl⟩
  · exact h.mono h.nodup (Nat.le_refl _) (update_eq_or (by simp))
  · obtain ⟨hremoves, hnone, hactive⟩ := hturn
    have hm := hactive active hj
    have hle : (collectFilesWithMtime (cleanupOldLogs logDir removes active s.files) isLogName).length ≤ maxKept m :=
      calc _ ≤ retentionCount active + active.dedup.length := length_cleanupOldLogs hremoves h.nodup
        _ ≤ maxKept m := by unfold retentionCount maxKept; omega
    have hcleaned : ∀ i, Function.update s.phase j .cleaned i = .cleaned → i = j := by
      intro i hi
      by_contra hij
      exact hnone i ((Function.update_of_ne hij ..).symm.trans hi)
    exact ⟨h.nodup.sublist ((foldl_removeFile_sublist _).map _), fun i k hi hk => (hcleaned i hi).trans (hcleaned k hk).symm,
      fun _ _ => hle, fun _ _ => Nat.le_succ_of_le hle⟩
  · -- the mount makes its log: it was the only one that had cleaned up
    have hnodup := nodup_names_createFile (mainLog (logId id j)) now h.nodup
    have hle : (collectFilesWithMtime (removeFile removes (createFile s.files (mainLog (logId id j)) now) (kernelLog (logId id j)))
        isLogName).length ≤ maxKept m + 1 :=
      calc _ ≤ (collectFilesWithMtime (createFile s.files (mainLog (logId id j)) now) isLogName).length :=
            ((removeFile_sublist _).filter _).length_le
        _ ≤ s.mainLogs.length + (isLogName (mainLog (logId id j))).toNat := length_collect_createFile ..
        _ ≤ maxKept m + 1 := Nat.add_le_add (h.cleaned j hj) (Bool.toNat_le _)
    have hnone : ∀ i, Function.update s.phase j .logging i ≠ .cleaned := by
      intro i hi
      by_cases hij : i = j
      · subst hij
        cases (Function.update_self ..).symm.trans hi
      · exact hij (h.alone i j ((Function.update_of_ne hij ..).symm.trans hi) hj)
    exact ⟨hnodup.sublist ((removeFile_sublist _).map _), fun i _ hi => absurd hi (hnone i), fun i hi => absurd hi (hnone i),
      fun _ _ => hle⟩
  · exact h.mono h.nodup (Nat.le_refl _) fun _ => .inl rfl
  · exact h.mono (by rw [names_writeFile]; exact h.nodup) (Nat.le_of_eq (length_collect_writeFile ..)) fun _ => .inl rfl
  · refine h.mono (nodup_names_createFile _ _ h.nodup) ?_ fun _ => .inl rfl
    have hle := length_collect_createFile s.files fname now
    rw [hlog] at hle
    exact hle
  · exact h.mono h.nodup (Nat.le_refl _) (update_eq_or (by simp))

/-- As long as mounts clean up one after another, each hearing of at most `m` instances, there are never more log files while a
mount has its own than ten (or `m + 1`, if that is more) and one for each of these instances. -/
theorem length_mainLogs_le {m : Nat} (hfiles : (files.map LogFile.name).Nodup)
    (h : Reach (step logDir id) (InTurn m) (init files) s) (hi : s.phase i = .logging) :
    s.mainLogs.length ≤ max (m + 1) logRetentionCount + m := by
  have hinit : Bounded m (init files : LogSys I) := by
    refine ⟨hfiles, fun _ _ hphase => ?_, fun _ hphase => ?_, fun _ hphase => ?_⟩ <;> cases hphase
  have hbounded := h.invariant (Bounded m) hinit fun _ _ _ ht hturn hs => ht.step hturn hs
  have hle := hbounded.logging i hi
  unfold maxKept logRetentionCount at hle
  unfold logRetentionCount
  omega

/-- What twelve earlier mounts have left. -/
def earlierLogs : List LogFile := (List.range 12).map fun n => ⟨mainLog ('-' :: Nat.toDigits 10 n), n⟩

/-- A mount that serves and a second one that cleans up after it, in a directory with old logs. -/
theorem length_mainLogs_le_second : ∃ s : LogSys Bool,
    Reach (step "logs".toList sampleId) (InTurn 1) (init earlierLogs) s ∧ s.phase true = .logging ∧ false ∈ s.serving ∧
      (collectFilesWithMtime earlierLogs isLogName).length = 12 ∧ s.mainLogs.length ≤ 11 := by
  have hinit : Reach (step "logs".toList sampleId) (InTurn 1) (init earlierLogs) (init earlierLogs) := .init
  have hdiscovered := Reach.step (Act.discover false []) hinit trivial rfl
  have hcleaned := Reach.step (Act.cleanup false fun _ => true) hdiscovered
    ⟨fun _ => rfl, by decide, fun active hphase => by cases hphase; decide⟩ rfl
  have hlogging := Reach.step (Act.initLogFile false (fun _ => true) 12) hcleaned trivial rfl
  have hserving := Reach.step (Act.serve false) hlogging trivial rfl
  have hdiscovered' := Reach.step (Act.discover true []) hserving trivial rfl
  have hcleaned' := Reach.step (Act.cleanup true fun _ => true) hdiscovered'
    ⟨fun _ => rfl, by decide, fun active hphase => by cases hphase; decide⟩ rfl
  have hlogging' := Reach.step (Act.initLogFile true (fun _ => true) 13) hcleaned' trivial rfl
  exact ⟨_, hlogging', rfl, by decide, by decide, length_mainLogs_le (i := true) (by decide) hlogging' rfl⟩

end LogSys

end LogRetention

end Anylinuxfs
