import Anylinuxfs.Lemmas.NestedMounts

/-!
# The order of nested mounts

The exports below the share are mounted from the top down and unmounted from the bottom up, whatever the threads do. The trie has
room for all of them when the text of the share path is normalised and it is not the root; otherwise all have the same place. The
paths stand between double quotes in the scripts, so each of them has to mean itself there.
-/

namespace Anylinuxfs

open Shell

/-! ## Mounting -/

section

variable {elevate : Bool} {opts vmHost mntPointBase base : Bytes} {absolute : Bool} {dir : List DirName}
  {exports : List (List DirName)}

/-- The components of an export below a base that is normalised and not the root are its names. -/
theorem key_below (hdir : dir ≠ []) {below : List DirName} (hbelow : below ≠ []) :
    exportKey (pathText absolute dir) (pathText absolute (dir ++ below)) = below.map DirName.bytes := by
  rw [exportKey, subdirRelative_below denotes_pathText hbelow, if_pos ⟨rfl, hdir⟩]
  exact denotes_pathText

theorem nodup_keys_below (hdir : dir ≠ []) (hbelow : ∀ below ∈ exports, below ≠ []) (hnodup : exports.Nodup) :
    ((exports.map fun below => pathText absolute (dir ++ below)).map (exportKey (pathText absolute dir))).Nodup := by
  have hkeys : (exports.map fun below => pathText absolute (dir ++ below)).map (exportKey (pathText absolute dir)) =
      exports.map (List.map DirName.bytes) := by
    rw [List.map_map]
    exact List.map_congr_left fun below hmem => key_below hdir (hbelow below hmem)
  rw [hkeys]
  exact hnodup.map bytes_injective.list_map

/-- What is spliced into the commands of the exports means itself between double quotes. -/
def ExportsLiteral (vmHost mntPointBase base : Bytes) (absolute : Bool) (dir : List DirName) (exports : List (List DirName)) :
    Prop :=
  ∀ below ∈ exports, Literal (remote vmHost (pathText absolute (dir ++ below))) ∧
    Literal (pathJoin mntPointBase (subdirRelative base (pathText absolute (dir ++ below))))

theorem shellReads_exportCommand (hopts : Plain opts) {subdir : Bytes} :
    ShellReads (exportCommand elevate opts vmHost mntPointBase base subdir)
      (mountWords opts vmHost subdir (pathJoin mntPointBase (subdirRelative base subdir))) ↔
      Literal (remote vmHost subdir) ∧ Literal (pathJoin mntPointBase (subdirRelative base subdir)) :=
  shellReads_iff.trans (intact_iff hopts _ _ _)

theorem mountsNested_iff (hopts : Plain opts) (hbase : Denotes base absolute dir) (hbelow : ∀ below ∈ exports, below ≠ [])
    (hnodup : exports.Nodup) :
    MountsNested elevate opts vmHost mntPointBase base absolute dir exports ↔
      ((base = pathText absolute dir ∧ dir ≠ []) ∨ exports.length ≤ 1) ∧
        ExportsLiteral vmHost mntPointBase base absolute dir exports := by
  refine and_congr ?_ (forall₂_congr fun below _ => shellReads_exportCommand hopts)
  constructor
  · intro hnested
    by_contra hno
    obtain ⟨hbad, hlen⟩ := not_or.1 hno
    obtain ⟨⟨trace, hrun⟩, hall⟩ := hnested (fun _ => true) fun _ => rfl
    have hkeys : ∀ subdir ∈ exports.map fun below => pathText absolute (dir ++ below), exportKey base subdir = [] := by
      intro subdir hsubdir
      obtain ⟨below, hmem, rfl⟩ := List.mem_map.1 hsubdir
      rw [exportKey, subdirRelative_below hbase (hbelow below hmem), if_neg hbad]
      rfl
    have hperm := (hall trace true hrun).2.1.length_eq
    rw [List.length_map] at hperm
    exact hlen (hperm ▸ length_le_one_of_run hkeys hrun)
  · intro hgood succeeds hall
    have hkeys : ((exports.map fun below => pathText absolute (dir ++ below)).map (exportKey base)).Nodup := by
      rcases hgood with ⟨rfl, hdir⟩ | hlen
      · exact nodup_keys_below hdir hbelow hnodup
      · rw [List.map_map]
        match exports, hlen with
        | [], _ => exact List.nodup_nil
        | [below], _ => exact List.nodup_singleton _
    refine ⟨⟨_, DirTrie.mountRun_mounts hall _⟩, ?_⟩
    intro trace ok hrun
    obtain rfl := hrun.ok hall
    refine ⟨rfl, (perm_of_run hkeys hrun).trans (.of_eq List.map_map), ?_⟩
    rintro a ha b hb ⟨hab, hne⟩
    rcases hgood with ⟨rfl, hdir⟩ | hlen
    · refine order_of_run hkeys hrun (List.mem_map_of_mem ha) (List.mem_map_of_mem hb) ?_ ?_
      · rw [key_below hdir (hbelow a ha), key_below hdir (hbelow b hb)]
        exact hab.map DirName.bytes
      · rw [key_below hdir (hbelow a ha), key_below hdir (hbelow b hb)]
        intro heq
        exact hne (bytes_injective.list_map heq)
    · match exports, hlen with
      | [below], _ => exact absurd ((List.mem_singleton.1 ha).trans (List.mem_singleton.1 hb).symm) hne

end

/-! ## Unmounting -/

section

variable {os : HostOs} {display : Bytes → List Char} {mountPoint names : List DirName} {table : List (List DirName)}

/-- The trie of mount points that lie under a mount point is the one of exports under it. -/
theorem unmountTrie_eq {subdirs : List Bytes} {base : Bytes} (h : ∀ subdir ∈ subdirs, underMountPoint base subdir = true) :
    unmountTrie base subdirs = subdirTrie base subdirs := by
  unfold unmountTrie subdirTrie
  refine List.foldl_ext _ _ _ ?_
  intro trie subdir hmem
  rw [unmountRelative_of_under (h subdir hmem)]

/-- The mount points that are unmounted. -/
theorem ourMountPoints_eq (hmp : mountPoint ≠ []) : ourMountPoints (table.map (pathText true)) (pathText true mountPoint) =
    (table.filter (mountPoint <+: ·)).map (pathText true) := by
  rw [ourMountPoints, List.filter_map]
  refine congrArg (List.map (pathText true)) (List.filter_congr ?_)
  intro names _
  rw [Bool.eq_iff_iff, decide_eq_true_eq]
  exact underMountPoint_iff hmp

/-- The components of a mount point that lies under another one are the names that it has more. -/
theorem key_under (hmp : mountPoint ≠ []) (below : List DirName) :
    exportKey (pathText true mountPoint) (pathText true (mountPoint ++ below)) = below.map DirName.bytes := by
  by_cases hbelow : below = []
  · rw [hbelow, List.append_nil, exportKey, subdirRelative_self]
    rfl
  · exact key_below hmp hbelow

theorem nodup_keys_under (hmp : mountPoint ≠ []) (htable : table.Nodup) :
    (((table.filter (mountPoint <+: ·)).map (pathText true)).map (exportKey (pathText true mountPoint))).Nodup := by
  rw [List.map_map]
  refine (htable.filter _).map_on ?_
  intro a ha b hb heq
  obtain ⟨below, rfl⟩ := of_decide_eq_true (List.mem_filter.1 ha).2
  obtain ⟨below', rfl⟩ := of_decide_eq_true (List.mem_filter.1 hb).2
  rw [Function.comp_apply, Function.comp_apply, key_under hmp, key_under hmp] at heq
  rw [bytes_injective.list_map heq]

/-- The mount points that are unmounted are texts that mean themselves between double quotes. -/
def MountPointsLiteral (mountPoint : List DirName) (table : List (List DirName)) : Prop :=
  ∀ names ∈ table, mountPoint <+: names → (∃ s, pathText true names = utf8 s) ∧ Literal (pathText true names)

theorem unmountsNested_iff (hdisplay : ∀ s, display (utf8 s) = s) (hmp : mountPoint ≠ []) (htable : table.Nodup) :
    UnmountsNested os display mountPoint table ↔ MountPointsLiteral mountPoint table := by
  have hreads : ∀ names, ShellReads (unmountCommand os display (subdirRelative (pathText true mountPoint) (pathText true names),
      pathText true names)) (unmountWords os (pathText true names)) ↔ (∃ s, pathText true names = utf8 s) ∧
        Literal (pathText true names) := fun names => shellReads_iff.trans (words_unmountScript_iff hdisplay)
  refine Iff.trans (and_iff_right ?_) (forall₃_congr fun names _ _ => hreads names)
  intro spawns hall
  have hkeys := nodup_keys_under hmp htable
  have htrie : unmountTrie (pathText true mountPoint) ((table.filter (mountPoint <+: ·)).map (pathText true)) =
      subdirTrie (pathText true mountPoint) ((table.filter (mountPoint <+: ·)).map (pathText true)) := by
    refine unmountTrie_eq ?_
    rw [← ourMountPoints_eq hmp]
    intro subdir hsubdir
    exact (List.mem_filter.1 hsubdir).2
  rw [ourMountPoints_eq hmp, htrie]
  refine ⟨DirTrie.exists_unmountRun hall _, ?_⟩
  intro trace ok hrun
  obtain rfl := hrun.ok hall
  have hmount := hrun.reverse
  have hmem : ∀ {a}, a ∈ table → mountPoint <+: a → pathText true a ∈ (table.filter (mountPoint <+: ·)).map (pathText true) :=
    fun ha hunder => List.mem_map_of_mem (List.mem_filter.2 ⟨ha, decide_eq_true hunder⟩)
  refine ⟨rfl, ((List.reverse_perm trace).symm.trans (perm_of_run hkeys hmount)).trans (.of_eq List.map_map), ?_⟩
  rintro a ha b hb hunder ⟨hab, hne⟩
  have hbelow := hunder.trans hab
  have horder := order_of_run hkeys hmount (hmem ha hunder) (hmem hb hbelow) ?_ ?_
  · have hreverse := List.reverse_sublist.2 horder
    rw [List.reverse_reverse] at hreverse
    exact hreverse
  · obtain ⟨below, rfl⟩ := hunder
    obtain ⟨below', rfl⟩ := hbelow
    rw [key_under hmp, key_under hmp]
    exact ((List.prefix_append_right_inj mountPoint).1 hab).map DirName.bytes
  · obtain ⟨below, rfl⟩ := hunder
    obtain ⟨below', rfl⟩ := hbelow
    rw [key_under hmp, key_under hmp]
    intro heq
    exact hne (congrArg (mountPoint ++ ·) (bytes_injective.list_map heq))

end

/-- The mounts are in order and each is what is meant exactly when the text of the share path is normalised and it is not the root,
or there is one export at most, and the paths mean themselves between double quotes; the unmounts are exactly when the mount points
are texts that mean themselves there. -/
theorem nestedMounts_iff {elevate : Bool} {opts vmHost mntPointBase base : Bytes} {absolute : Bool} {dir : List DirName}
    {exports : List (List DirName)} {os : HostOs} {display : Bytes → List Char} {mountPoint : List DirName}
    {table : List (List DirName)} (hopts : Plain opts) (hdisplay : ∀ s, display (utf8 s) = s) (hbase : Denotes base absolute dir)
    (hbelow : ∀ below ∈ exports, below ≠ []) (hnodup : exports.Nodup) (hmp : mountPoint ≠ []) (htable : table.Nodup) :
    MountsNested elevate opts vmHost mntPointBase base absolute dir exports ∧ UnmountsNested os display mountPoint table ↔
      (((base = pathText absolute dir ∧ dir ≠ []) ∨ exports.length ≤ 1) ∧
        ExportsLiteral vmHost mntPointBase base absolute dir exports) ∧ MountPointsLiteral mountPoint table := by
  rw [mountsNested_iff hopts hbase hbelow hnodup, unmountsNested_iff hdisplay hmp htable]

/-! ## Two shares -/

/-- `foo`. -/
def fooName : DirName := ⟨bytes "foo", by decide⟩

/-- `foo-1`. -/
def fooOneName : DirName := ⟨bytes "foo-1", by decide⟩

theorem nestedMounts_siblings :
    MountsNested true (NfsOptions.default .macos).toList (bytes "alfs.local") (bytes "/Volumes/foo") (bytes "/foo") true [fooName]
        [[fooName, fooOneName], [fooOneName], [fooName]] ∧
      UnmountsNested .macos decodeUtf8 [fooName] [[fooOneName], [], [fooName, fooName], [fooName], [fooName, fooOneName]] := by
  have hbase : Denotes (bytes "/foo") true [fooName] := rfl
  refine (nestedMounts_iff (inertOptions_default .macos).plain decodeUtf8_utf8 hbase (by decide) (by decide) (by decide)
    (by decide)).2 ⟨⟨.inl ⟨by decide, by decide⟩, ?_⟩, ?_⟩
  · unfold ExportsLiteral
    decide
  · have hunder : ∀ names ∈ [[fooOneName], [], [fooName, fooName], [fooName], [fooName, fooOneName]], [fooName] <+: names →
        names = [fooName, fooName] ∨ names = [fooName] ∨ names = [fooName, fooOneName] := by decide
    intro names hmem hbelow
    rcases hunder names hmem hbelow with rfl | rfl | rfl
    · exact ⟨⟨"/foo/foo".toList, by decide⟩, by decide⟩
    · exact ⟨⟨"/foo".toList, by decide⟩, by decide⟩
    · exact ⟨⟨"/foo/foo-1".toList, by decide⟩, by decide⟩

/-- The root is shared with two directories in it: one of them is mounted, over the mount point of the root. -/
theorem nestedMounts_false : ¬ ∀ (elevate : Bool) (opts vmHost mntPointBase base : Bytes) (absolute : Bool) (dir : List DirName)
    (exports : List (List DirName)) (os : HostOs) (display : Bytes → List Char) (mountPoint : List DirName)
    (table : List (List DirName)), Plain opts → (∀ s, display (utf8 s) = s) → Denotes base absolute dir →
      (∀ below ∈ exports, below ≠ []) → exports.Nodup → mountPoint ≠ [] → table.Nodup →
        MountsNested elevate opts vmHost mntPointBase base absolute dir exports ∧ UnmountsNested os display mountPoint table := by
  intro hall
  have hopts := (inertOptions_default .macos).plain
  have hbelow : ∀ below ∈ [[fooName], [fooOneName]], below ≠ [] := by decide
  have hnodup : [[fooName], [fooOneName]].Nodup := by decide
  have hbase : Denotes (bytes "/") true [] := rfl
  have hnested := (hall true _ (bytes "alfs.local") (bytes "/Volumes/root") (bytes "/") true [] [[fooName], [fooOneName]] .macos
    decodeUtf8 [fooName] [] hopts decodeUtf8_utf8 hbase hbelow hnodup (by decide) (by decide)).1
  rcases ((mountsNested_iff hopts hbase hbelow hnodup).1 hnested).1 with ⟨-, hdir⟩ | hlen
  · exact hdir rfl
  · revert hlen
    decide

end Anylinuxfs
