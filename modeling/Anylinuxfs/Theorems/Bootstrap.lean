import Anylinuxfs.Lemmas.Bootstrap

/-!
# Downloads end

A call of `downloadWithDependencies` downloads files that have not been downloaded, and calls itself with what these depend on. Only
finitely many paths come up, so the calls end; if every download works, everything that the requested files lead to has come up.
-/

namespace Anylinuxfs

namespace Bootstrap

open RemoteIso

variable {world : World} {root : IsoFile} {targetDir path dep : Bytes} {paths deps requested fresh : List Bytes} {d d₀ : Downloader}
  {s : Scan} {entry : FileEntry} {entries remoteFiles : List FileEntry} {wanted : Bytes → Prop}

/-! ## Files that are found -/

theorem mem_findFiles : entry ∈ findFiles root paths ↔ entry.path ∈ paths ∧ findFileByPath root entry.path = some entry.file := by
  rw [findFiles, List.mem_filterMap]
  constructor
  · rintro ⟨path, hpath, hfile⟩
    obtain ⟨file, hfound, rfl⟩ := Option.map_eq_some_iff.1 hfile
    exact ⟨hpath, hfound⟩
  · rintro ⟨hpath, hfile⟩
    exact ⟨entry.path, hpath, by rw [hfile]; rfl⟩

theorem mem_path_findFiles : path ∈ (findFiles root paths).map FileEntry.path ↔ path ∈ paths ∧ (findFileByPath root path).isSome = true := by
  rw [List.mem_map]
  constructor
  · rintro ⟨entry, hentry, rfl⟩
    obtain ⟨hpath, hfile⟩ := mem_findFiles.1 hentry
    exact ⟨hpath, by rw [hfile]; rfl⟩
  · rintro ⟨hpath, hsome⟩
    obtain ⟨file, hfile⟩ := Option.isSome_iff_exists.1 hsome
    exact ⟨⟨file, path⟩, mem_findFiles.2 ⟨hpath, hfile⟩, rfl⟩

/-! ## Dependencies that are collected -/

/-- The keys of the two maps are the dependencies so far. -/
structure Collected (wanted : Bytes → Prop) (s : Scan) : Prop where
  libraries : ∀ dep, dep ∈ s.libraryDeps ↔ wanted dep ∧ isRooted dep = false
  paths : ∀ dep, dep ∈ s.pathDeps ↔ wanted dep ∧ isRooted dep = true

theorem d_addDependency (s : Scan) (dep : Bytes) : (addDependency s dep).d = s.d := by
  rw [addDependency]
  split
  · rfl
  · rfl

theorem Collected.addDependency (h : Collected wanted s) (dep : Bytes) :
    Collected (fun q => wanted q ∨ q = dep) (addDependency s dep) := by
  rw [Bootstrap.addDependency]
  cases hrooted : isRooted dep with
  | true =>
    rw [if_pos rfl]
    constructor
    · intro q
      refine (h.libraries q).trans (and_congr_left fun hq => (or_iff_left fun heq => ?_).symm)
      rw [heq, hrooted] at hq
      cases hq
    · intro q
      rw [List.mem_insert_iff, h.paths q, or_comm, or_and_right]
      exact or_congr_right (iff_self_and.2 fun heq => heq ▸ hrooted)
  | false =>
    rw [if_neg Bool.false_ne_true]
    constructor
    · intro q
      rw [List.mem_insert_iff, h.libraries q, or_comm, or_and_right]
      exact or_congr_right (iff_self_and.2 fun heq => heq ▸ hrooted)
    · intro q
      refine (h.paths q).trans (and_congr_left fun hq => (or_iff_left fun heq => ?_).symm)
      rw [heq, hrooted] at hq
      cases hq

theorem Collected.foldl (h : Collected wanted s) (deps : List Bytes) :
    Collected (fun q => wanted q ∨ q ∈ deps) (deps.foldl Bootstrap.addDependency s) ∧ (deps.foldl Bootstrap.addDependency s).d = s.d := by
  induction deps generalizing s wanted with
  | nil => exact ⟨by simpa using h, rfl⟩
  | cons dep deps ih =>
    obtain ⟨hrest, hd⟩ := ih (h.addDependency dep)
    simp only [or_assoc, ← List.mem_cons] at hrest
    exact ⟨hrest, hd.trans (d_addDependency s dep)⟩

/-- The paths that are looked for are the candidates of the dependencies, in some order. -/
theorem Collected.mem_possiblePaths (h : Collected wanted s) : path ∈ possiblePaths world s ↔ ∃ dep, wanted dep ∧ path ∈ candidates dep := by
  rw [possiblePaths, List.mem_append, List.mem_flatMap, (world.order_perm _ _ _).mem_iff, h.paths]
  constructor
  · rintro (⟨base, hbase, hpath⟩ | ⟨hwanted, hrooted⟩)
    · obtain ⟨dep, hdep, rfl⟩ := List.mem_map.1 hpath
      obtain ⟨hwanted, hrooted⟩ := (h.libraries dep).1 ((world.order_perm _ _ _).mem_iff.1 hdep)
      refine ⟨dep, hwanted, ?_⟩
      rw [candidates, hrooted]
      exact List.mem_map.2 ⟨base, hbase, rfl⟩
    · refine ⟨path, hwanted, ?_⟩
      rw [candidates, hrooted]
      exact List.mem_cons_self
  · rintro ⟨dep, hwanted, hpath⟩
    rw [candidates] at hpath
    cases hrooted : isRooted dep with
    | true =>
      rw [hrooted, if_pos rfl, List.mem_singleton] at hpath
      exact .inr ⟨hpath ▸ hwanted, hpath ▸ hrooted⟩
    | false =>
      rw [hrooted, if_neg Bool.false_ne_true] at hpath
      obtain ⟨base, hbase, rfl⟩ := List.mem_map.1 hpath
      exact .inl ⟨base, hbase, List.mem_map_of_mem ((world.order_perm _ _ _).mem_iff.2 ((h.libraries dep).2 ⟨hwanted, hrooted⟩))⟩

/-! ## A level of downloads -/

/-- The paths of the downloads that worked. -/
def successes (downloads : Downloads) : List Bytes := (downloads.filter (·.2)).map Prod.fst

theorem successes_append_true (downloads : Downloads) (path : Bytes) :
    successes (downloads ++ [(path, true)]) = successes downloads ++ [path] := by
  rw [successes, List.filter_append, List.map_append]
  rfl

theorem successes_append_false (downloads : Downloads) (path : Bytes) : successes (downloads ++ [(path, false)]) = successes downloads := by
  rw [successes, List.filter_append, List.map_append]
  exact List.append_nil _

/-- Every download has worked. -/
def Worked (d : Downloader) : Prop := ∀ call ∈ d.downloads, call.2 = true

/-- The entries that have been gone through, of which the paths `fresh` have been downloaded. -/
structure Scanned (world : World) (d₀ : Downloader) (entries : List FileEntry) (fresh : List Bytes) (s : Scan) : Prop where
  targetDir : s.d.targetDir = d₀.targetDir
  remoteRoot : s.d.remoteRoot = d₀.remoteRoot
  finished : s.d.finishedFiles = d₀.finishedFiles ++ fresh
  distinct : fresh.Nodup
  todo : ∀ path ∈ fresh, path ∈ entries.map FileEntry.path
  new : ∀ path ∈ fresh, path ∉ d₀.finishedFiles
  recorded : successes d₀.downloads = d₀.finishedFiles → successes s.d.downloads = s.d.finishedFiles
  worked : Worked s.d → Worked d₀ ∧ Saturate.Complete d₀.finishedFiles (entries.map FileEntry.path) fresh
  collected : Collected (fun dep => ∃ path ∈ fresh, Needs world d₀.targetDir d₀.remoteRoot path dep) s

theorem Scanned.start (world : World) (d₀ : Downloader) : Scanned world d₀ [] [] ⟨d₀, [], []⟩ where
  targetDir := rfl
  remoteRoot := rfl
  finished := (List.append_nil _).symm
  distinct := .nil
  todo := nofun
  new := nofun
  recorded := id
  worked h := ⟨h, nofun⟩
  collected := ⟨by simp, by simp⟩

theorem Scanned.mem_path_append (h : Scanned world d₀ entries fresh s) (hpath : path ∈ fresh) :
    path ∈ (entries ++ [entry]).map FileEntry.path := by
  rw [List.map_append]
  exact List.mem_append_left _ (h.todo path hpath)

/-- An entry that is skipped, or cannot be downloaded, changes nothing but the downloads that were tried. -/
theorem Scanned.skip (h : Scanned world d₀ entries fresh s) (hfinished : entry.path ∈ s.d.finishedFiles) :
    Scanned world d₀ (entries ++ [entry]) fresh s where
  targetDir := h.targetDir
  remoteRoot := h.remoteRoot
  finished := h.finished
  distinct := h.distinct
  todo _ hpath := h.mem_path_append hpath
  new := h.new
  recorded := h.recorded
  worked hworked := by
    obtain ⟨hworked, hcomplete⟩ := h.worked hworked
    refine ⟨hworked, fun path hpath => ?_⟩
    rw [List.map_append, List.mem_append] at hpath
    rcases hpath with hpath | hpath
    · exact hcomplete path hpath
    · obtain rfl := List.mem_singleton.1 hpath
      exact List.mem_append.1 (h.finished ▸ hfinished)
  collected := h.collected

theorem Scanned.fail (h : Scanned world d₀ entries fresh s) :
    Scanned world d₀ (entries ++ [entry]) fresh { s with d := { s.d with downloads := s.d.downloads ++ [(entry.path, false)] } } where
  targetDir := h.targetDir
  remoteRoot := h.remoteRoot
  finished := h.finished
  distinct := h.distinct
  todo _ hpath := h.mem_path_append hpath
  new := h.new
  recorded hrecorded := (successes_append_false _ _).trans (h.recorded hrecorded)
  worked hworked := absurd (hworked _ (List.mem_append_right _ List.mem_cons_self)) Bool.false_ne_true
  collected := ⟨h.collected.libraries, h.collected.paths⟩

/-- A download adds the path and the dependencies of its file. -/
theorem Scanned.succeed (h : Scanned world d₀ entries fresh s) (hfinished : entry.path ∉ s.d.finishedFiles)
    (hfile : findFileByPath d₀.remoteRoot entry.path = some entry.file) {copy : LocalFile}
    (hcopy : localFile d₀.targetDir entry.file = some copy) :
    Scanned world d₀ (entries ++ [entry]) (fresh ++ [entry.path])
      ((getDependencies world (join d₀.targetDir entry.path) copy).foldl addDependency
        { s with d := { s.d with finishedFiles := s.d.finishedFiles ++ [entry.path], downloads := s.d.downloads ++ [(entry.path, true)] } }) := by
  rw [h.finished, List.mem_append, not_or] at hfinished
  have hcollected : Collected (fun dep => ∃ path ∈ fresh, Needs world d₀.targetDir d₀.remoteRoot path dep)
      { s with d := { s.d with finishedFiles := s.d.finishedFiles ++ [entry.path], downloads := s.d.downloads ++ [(entry.path, true)] } } :=
    ⟨h.collected.libraries, h.collected.paths⟩
  obtain ⟨hcollected, hd⟩ := hcollected.foldl (getDependencies world (join d₀.targetDir entry.path) copy)
  have hneeds : ∀ dep, Needs world d₀.targetDir d₀.remoteRoot entry.path dep ↔
      dep ∈ getDependencies world (join d₀.targetDir entry.path) copy := by
    intro dep
    rw [getDependencies_eq]
    constructor
    · rintro ⟨file, hfile', copy', hcopy', hdep⟩
      obtain rfl := Option.some.inj (hfile.symm.trans hfile')
      obtain rfl := Option.some.inj (hcopy.symm.trans hcopy')
      exact hdep
    · exact fun hdep => ⟨entry.file, hfile, copy, hcopy, hdep⟩
  constructor
  · rw [hd]
    exact h.targetDir
  · rw [hd]
    exact h.remoteRoot
  · rw [hd]
    dsimp only
    rw [h.finished, List.append_assoc]
  · exact List.nodup_append'.2 ⟨h.distinct, List.nodup_singleton _, List.disjoint_singleton.2 hfinished.2⟩
  · intro path hpath
    rcases List.mem_append.1 hpath with hpath | hpath
    · exact h.mem_path_append hpath
    · obtain rfl := List.mem_singleton.1 hpath
      exact List.mem_map_of_mem (List.mem_append_right _ List.mem_cons_self)
  · intro path hpath
    rcases List.mem_append.1 hpath with hpath | hpath
    · exact h.new path hpath
    · exact List.mem_singleton.1 hpath ▸ hfinished.1
  · intro hrecorded
    rw [hd]
    dsimp only
    rw [successes_append_true, h.recorded hrecorded]
  · intro hworked
    rw [Worked, hd] at hworked
    obtain ⟨hworked, hcomplete⟩ := h.worked fun call hcall => hworked call (List.mem_append_left _ hcall)
    refine ⟨hworked, fun path hpath => ?_⟩
    rw [List.map_append, List.mem_append] at hpath
    rw [List.mem_append]
    rcases hpath with hpath | hpath
    · exact (hcomplete path hpath).imp_right .inl
    · exact .inr (.inr hpath)
  · have hwanted : (fun dep => ∃ path ∈ fresh ++ [entry.path], Needs world d₀.targetDir d₀.remoteRoot path dep) =
        fun dep => (∃ path ∈ fresh, Needs world d₀.targetDir d₀.remoteRoot path dep) ∨
          dep ∈ getDependencies world (join d₀.targetDir entry.path) copy := by
      funext dep
      simp only [List.mem_append, List.mem_singleton, or_and_right, exists_or, exists_eq_left, hneeds]
    rw [hwanted]
    exact hcollected

/-- A turn of the loop over the remote files. -/
theorem Scanned.downloadEntry (h : Scanned world d₀ entries fresh s)
    (hfile : findFileByPath d₀.remoteRoot entry.path = some entry.file) :
    ∃ fresh', Scanned world d₀ (entries ++ [entry]) fresh' (downloadEntry world s entry) := by
  rw [Bootstrap.downloadEntry]
  by_cases hfinished : entry.path ∈ s.d.finishedFiles
  · rw [if_pos hfinished]
    exact ⟨fresh, h.skip hfinished⟩
  · rw [if_neg hfinished, download, h.targetDir]
    split
    · next hnone => exact ⟨fresh, h.fail⟩
    · next localPath copy hsome =>
      split at hsome
      · obtain ⟨copy, hcopy, heq⟩ := Option.map_eq_some_iff.1 hsome
        obtain ⟨rfl, rfl⟩ := Prod.mk.inj heq
        exact ⟨_, h.succeed hfinished hfile hcopy⟩
      · cases hsome

/-- The loop over the remote files. -/
theorem Scanned.foldl (h : Scanned world d₀ entries fresh s)
    (hfiles : ∀ entry ∈ remoteFiles, findFileByPath d₀.remoteRoot entry.path = some entry.file) :
    ∃ fresh', Scanned world d₀ (entries ++ remoteFiles) fresh' (remoteFiles.foldl (Bootstrap.downloadEntry world) s) := by
  induction remoteFiles generalizing entries fresh s with
  | nil =>
    rw [List.append_nil]
    exact ⟨fresh, h⟩
  | cons entry remoteFiles ih =>
    obtain ⟨fresh', hentry⟩ := h.downloadEntry (hfiles entry List.mem_cons_self)
    obtain ⟨fresh'', hrest⟩ := ih hentry fun e he => hfiles e (List.mem_cons_of_mem _ he)
    rw [List.append_assoc, List.singleton_append] at hrest
    exact ⟨fresh'', hrest⟩

/-- The files that are found then are what the downloaded ones depend on. -/
theorem Scanned.level (h : Scanned world d₀ entries fresh s) :
    Saturate.Level (DependsOn world d₀.targetDir d₀.remoteRoot) d₀.finishedFiles (entries.map FileEntry.path) fresh
      ((findFiles d₀.remoteRoot (possiblePaths world s)).map FileEntry.path) where
  distinct := h.distinct
  todo := h.todo
  new := h.new
  later q := by
    rw [mem_path_findFiles, h.collected.mem_possiblePaths]
    constructor
    · rintro ⟨⟨dep, ⟨path, hpath, hneeds⟩, hq⟩, hfound⟩
      exact ⟨path, hpath, ⟨dep, hneeds, hq⟩, hfound⟩
    · rintro ⟨path, hpath, ⟨dep, hneeds, hq⟩, hfound⟩
      exact ⟨⟨dep, ⟨path, hpath, hneeds⟩, hq⟩, hfound⟩

/-! ## The whole run -/

/-- What holds whenever `downloadWithDependencies` is called. -/
structure Invariant (world : World) (targetDir : Bytes) (root : IsoFile) (requested : List Bytes) (d : Downloader)
    (todo : List Bytes) : Prop where
  target : d.targetDir = targetDir
  remote : d.remoteRoot = root
  recorded : successes d.downloads = d.finishedFiles
  sound : Saturate.Sound (DependsOn world targetDir root) (Requested root requested) d.finishedFiles todo
  saturated : Worked d → Saturate.Saturated (DependsOn world targetDir root) (Requested root requested) d.finishedFiles todo

theorem Invariant.start (world : World) (targetDir : Bytes) (root : IsoFile) (requested : List Bytes) :
    Invariant world targetDir root requested (newDownloader targetDir root) ((findFiles root requested).map FileEntry.path) where
  target := rfl
  remote := rfl
  recorded := rfl
  sound := ⟨.nil, nofun, fun path hpath => ⟨path, mem_path_findFiles.1 hpath, .refl⟩⟩
  saturated _ := ⟨fun _ hpath => .inr (mem_path_findFiles.2 hpath), nofun⟩

theorem Invariant.level (h : Invariant world targetDir root requested d (entries.map FileEntry.path))
    (hscanned : Scanned world d entries fresh s) :
    Invariant world targetDir root requested s.d ((findFiles root (possiblePaths world s)).map FileEntry.path) := by
  obtain ⟨rfl, rfl, hrecorded, hsound, hsaturated⟩ := h
  refine ⟨hscanned.targetDir, hscanned.remoteRoot, hscanned.recorded hrecorded, ?_, ?_⟩
  · rw [hscanned.finished]
    exact hsound.level hscanned.level
  · intro hworked
    obtain ⟨hworked, hcomplete⟩ := hscanned.worked hworked
    rw [hscanned.finished]
    exact (hsaturated hworked).level hscanned.level hcomplete

theorem Invariant.downloaded (h : Invariant world targetDir root requested d []) : Downloaded world targetDir root requested d where
  once := by
    have hrecorded : (d.downloads.filter (·.2)).map Prod.fst = d.finishedFiles := h.recorded
    rw [hrecorded]
    exact h.sound.distinct
  closure hworked := (h.saturated hworked).mem_iff h.sound

/-- Only finitely many paths can come up. -/
theorem finite_closure (world : World) (root : IsoFile) (requested : List Bytes) :
    {path | Saturate.Closure (DependsOn world (bytes "/") root) (Requested root requested) path}.Finite := by
  refine (requested.finite_toSet.union (finite_dependsOn world root)).subset ?_
  rintro path ⟨start, hstart, hpath⟩
  rcases hpath.cases_tail with rfl | ⟨path', _, hdepends⟩
  · exact .inl hstart.1
  · exact .inr ⟨path', hdepends⟩

/-- The downloads end, no path is downloaded twice, and if every download works, what has been downloaded is the closure of the
requested files under the dependencies that can be found. -/
theorem downloadWithDependencies_downloaded (world : World) (root : IsoFile) (requested : List Bytes) :
    ∃ d, Loop.EndsIn (downloadWithDependencies world) (newDownloader (bytes "/") root, findFiles root requested) d ∧
      Downloaded world (bytes "/") root requested d := by
  obtain ⟨all, hall⟩ := (finite_closure world root requested).exists_finset
  refine Loop.EndsIn.of_measure
    (fun state => (∀ entry ∈ state.2, findFileByPath root entry.path = some entry.file) ∧
      Invariant world (bytes "/") root requested state.1 (state.2.map FileEntry.path))
    (fun state => all.card - state.1.finishedFiles.length) _ ?_ ?_
    ⟨fun entry hentry => (mem_findFiles.1 hentry).2, Invariant.start world (bytes "/") root requested⟩
  · rintro ⟨d, remoteFiles⟩ state' ⟨hfiles, hinv⟩ hstep
    obtain ⟨fresh, hscanned⟩ := (Scanned.start world d).foldl (hinv.remote ▸ hfiles)
    rw [List.nil_append] at hscanned
    rw [downloadWithDependencies] at hstep
    split at hstep
    · next hfound =>
      obtain rfl := Sum.inl.inj hstep
      rw [hinv.remote] at hfound ⊢
      refine ⟨⟨fun entry hentry => (mem_findFiles.1 hentry).2, hinv.level hscanned⟩, ?_⟩
      have hlevel := hscanned.level
      rw [hinv.target, hinv.remote] at hlevel
      dsimp only
      rw [hscanned.finished]
      exact hinv.sound.measure_lt hlevel (fun hnil => hfound (List.map_eq_nil_iff.1 hnil)) fun path hpath => (hall path).2 hpath
    · cases hstep
  · rintro ⟨d, remoteFiles⟩ d' ⟨hfiles, hinv⟩ hstep
    obtain ⟨fresh, hscanned⟩ := (Scanned.start world d).foldl (hinv.remote ▸ hfiles)
    rw [List.nil_append] at hscanned
    rw [downloadWithDependencies] at hstep
    split at hstep
    · cases hstep
    · next hfound =>
      obtain rfl := Sum.inr.inj hstep
      rw [hinv.remote, not_not] at hfound
      have hend := hinv.level hscanned
      rw [hfound] at hend
      exact hend.downloaded

/-- Two links in a directory that lead to each other. -/
def linkCycle : IsoFile :=
  .directory [] [] [.directory (bytes "lib") [] [.symlink (bytes "a") (bytes "./b"), .symlink (bytes "b") (bytes "/lib//a")]]

/-- Every download works, and no file is a library. -/
def allWorks : World := ⟨fun _ => [], fun _ _ => true, fun _ _ keys => keys, fun _ _ keys => .refl keys⟩

example :
    (Loop.runFor (downloadWithDependencies allWorks) 3 (newDownloader (bytes "/") linkCycle, findFiles linkCycle [bytes "/lib/a"])).map
      Downloader.finishedFiles = some [bytes "/lib/a", bytes "/lib/b"] := by decide

end Bootstrap

end Anylinuxfs
