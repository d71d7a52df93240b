import Anylinuxfs.Zfs

/-!
# The pools that are exported

The action that exports the pools ends after one run of its script, whatever became of it. So all pools are exported exactly when
the list of the pools is complete, every name is one word, and no pool is in use at the one attempt that is made.
-/

namespace Anylinuxfs

namespace Zfs

/-! ## The list of the pools -/

section

variable {mountpoints : List Vmproxy.Mountpoint} {datasets : List Dataset} {pool : List Char}

theorem mem_foldl_uniquePools {pools : List (List Char)} :
    pool ∈ mountpoints.foldl (fun pools mp => if mp.pool ∈ pools then pools else pools ++ [mp.pool]) pools ↔
      pool ∈ pools ∨ ∃ mp ∈ mountpoints, mp.pool = pool := by
  induction mountpoints generalizing pools with
  | nil => simp
  | cons mp mountpoints ih =>
    rw [List.foldl_cons, ih]
    split
    case isTrue hmem =>
      constructor
      · rintro (h | h)
        · exact .inl h
        · simp [h]
      · rintro (h | ⟨mp', hmp', rfl⟩)
        · exact .inl h
        · rcases List.mem_cons.1 hmp' with rfl | hmp'
          · exact .inl hmem
          · exact .inr ⟨mp', hmp', rfl⟩
    case isFalse => simp [or_assoc, eq_comm]

/-- The pools of the mount points, each of them once. -/
theorem mem_uniquePools : pool ∈ uniquePools mountpoints ↔ ∃ mp ∈ mountpoints, mp.pool = pool := by
  simp [uniquePools, mem_foldl_uniquePools]

theorem nodup_uniquePools : (uniquePools mountpoints).Nodup := by
  have hfold : ∀ {pools : List (List Char)}, pools.Nodup →
      (mountpoints.foldl (fun pools mp => if mp.pool ∈ pools then pools else pools ++ [mp.pool]) pools).Nodup := by
    induction mountpoints with
    | nil => exact id
    | cons mp mountpoints ih =>
      intro pools hpools
      rw [List.foldl_cons]
      refine ih ?_
      split
      case isTrue => exact hpools
      case isFalse hmem =>
        rw [List.nodup_append]
        refine ⟨hpools, by simp, ?_⟩
        rintro a ha b hb rfl
        exact hmem (List.mem_singleton.1 hb ▸ ha)
  exact hfold List.nodup_nil

theorem mounted_pool {ds : Dataset} {mp : Vmproxy.Mountpoint} (h : ds.mounted = some mp) : mp.pool = ds.pool := by
  unfold Dataset.mounted at h
  split at h
  · split at h
    · cases h
      rfl
    · cases h
  · cases h

/-- A pool is in the list exactly when one of its data sets has a mount point that is not left out. -/
theorem mem_importedPools : pool ∈ (importAllZpools (some 0) datasets).2.2 ↔
    ∃ ds ∈ datasets, ds.pool = pool ∧ ds.mounted.isSome = true := by
  change pool ∈ uniquePools (mountpointsFromJson datasets) ↔ _
  simp only [mem_uniquePools, mountpointsFromJson, List.mem_mergeSort, List.mem_dedup, List.mem_filterMap]
  constructor
  · rintro ⟨mp, ⟨ds, hds, hmounted⟩, rfl⟩
    exact ⟨ds, hds, (mounted_pool hmounted).symm, by simp [hmounted]⟩
  · rintro ⟨ds, hds, rfl, hsome⟩
    obtain ⟨mp, hmp⟩ := Option.isSome_iff_exists.1 hsome
    exact ⟨mp, ⟨ds, hds, hmp⟩, mounted_pool hmp⟩

end

/-! ## Names -/

section

variable {pool : List Char}

theorem amp_notMem_of_isPoolName (h : isPoolName pool = true) : '&' ∉ pool := by
  intro hmem
  simp only [isPoolName, Bool.and_eq_true, List.all_eq_true] at h
  exact absurd (h.2 '&' hmem) (by decide)

theorem ne_nil_of_isPoolName (h : isPoolName pool = true) : pool ≠ [] := by
  rintro rfl
  cases h

theorem tokens_export (pool : List Char) :
    Shell.tokens ("zpool export ".toList ++ pool) = "zpool".toList :: "export".toList :: Shell.tokens pool := by
  have hzpool : Shell.tokens "zpool".toList = ["zpool".toList] := by decide
  have hexport : Shell.tokens "export".toList = ["export".toList] := by decide
  change Shell.tokens ("zpool".toList ++ ' ' :: ("export".toList ++ ' ' :: pool)) = _
  rw [Shell.tokens_append_blank, Shell.tokens_append_blank, hzpool, hexport]
  rfl

/-- The commands of the script. -/
theorem andList_zfsExportScript {pools : List (List Char)} (h : ∀ p ∈ pools, isPoolName p = true) :
    Shell.andList (zfsExportScript pools) = pools.reverse.map fun p => "zpool".toList :: "export".toList :: Shell.tokens p := by
  have hcommands : ∀ c ∈ pools.reverse.map ("zpool export ".toList ++ ·), Shell.tokens c ≠ [] ∧ Shell.andOperator ∉ Shell.tokens c := by
    intro c hc
    obtain ⟨p, hp, rfl⟩ := List.mem_map.1 hc
    rw [tokens_export]
    refine ⟨List.cons_ne_nil _ _, ?_⟩
    intro hmem
    rcases List.mem_cons.1 hmem with heq | hmem
    · exact absurd heq (by decide)
    · rcases List.mem_cons.1 hmem with heq | hmem
      · exact absurd heq (by decide)
      · exact amp_notMem_of_isPoolName (h p (List.mem_reverse.1 hp)) (Shell.subset_of_mem_tokens hmem List.mem_cons_self)
  rw [zfsExportScript, Shell.andList_joinAnd hcommands, List.map_map]
  exact List.map_congr_left fun p _ => tokens_export p

end

/-! ## Runs of the script -/

section

variable {busy : Nat → Bool} {s : Pools} {pool : List Char} {pools : List (List Char)}

theorem mem_exported_exportPool {p : List Char} (h : pool ∈ (exportPool busy s p).2.exported) : pool ∈ s.exported ∨ pool = p := by
  unfold exportPool at h
  split at h
  · simpa using h
  · exact .inl h

theorem mem_exported_exportPools (h : pool ∈ (exportPools busy s pools).2.exported) : pool ∈ s.exported ∨ pool ∈ pools := by
  induction pools generalizing s with
  | nil => exact .inl h
  | cons p pools ih =>
    rcases ih h with h | h
    · rcases mem_exported_exportPool h with h | rfl
      · exact .inl h
      · exact .inr List.mem_cons_self
    · exact .inr (List.mem_cons_of_mem p h)

theorem mem_exported_runCommand {command : List (List Char)} (h : pool ∈ (runCommand busy s command).2.exported) :
    pool ∈ s.exported ∨ pool ∈ command.drop 2 := by
  unfold runCommand at h
  split at h
  · split at h
    · exact mem_exported_exportPools h
    · exact .inl h
  · exact .inl h

/-- Only pools that a command names are exported. -/
theorem mem_exported_runAndList {commands : List (List (List Char))} (h : pool ∈ (runAndList busy s commands).2.exported) :
    pool ∈ s.exported ∨ ∃ command ∈ commands, pool ∈ command.drop 2 := by
  induction commands generalizing s with
  | nil => exact .inl h
  | cons command commands ih =>
    have hfirst : pool ∈ (runCommand busy s command).2.exported → pool ∈ s.exported ∨ ∃ c ∈ command :: commands, pool ∈ c.drop 2 := by
      intro hmem
      exact (mem_exported_runCommand hmem).imp_right fun hmem => ⟨command, List.mem_cons_self, hmem⟩
    rw [runAndList] at h
    split at h
    · next s' hs' =>
      rcases ih h with h | ⟨c, hc, hmem⟩
      · exact hfirst (by rw [hs']; exact h)
      · exact .inr ⟨c, List.mem_cons_of_mem command hc, hmem⟩
    · next s' hs' => exact hfirst (by rw [hs']; exact h)

/-- A script that exports some pools by their names. -/
def exportCommands (pools : List (List Char)) : List (List (List Char)) := pools.map fun p => ["zpool".toList, "export".toList, p]

theorem runCommand_export (p : List Char) : runCommand busy s ["zpool".toList, "export".toList, p] = exportPool busy s p := by
  simp [runCommand, exportPools]

theorem exportPool_idle {p : List Char} (himported : p ∈ s.imported) (hidle : busy s.attempts = false) :
    exportPool busy s p = (true, ⟨s.imported.erase p, s.exported ++ [p], s.attempts + 1⟩) := if_pos ⟨himported, hidle⟩

/-- If no pool is in use, every pool is exported. -/
theorem exported_of_idle (hnodup : pools.Nodup) (himported : ∀ p ∈ pools, p ∈ s.imported)
    (hidle : ∀ i < pools.length, busy (s.attempts + i) = false) :
    (runAndList busy s (exportCommands pools)).2.exported = s.exported ++ pools := by
  induction pools generalizing s with
  | nil => simp [exportCommands, runAndList]
  | cons p pools ih =>
    obtain ⟨hp, hpools⟩ := List.nodup_cons.1 hnodup
    have hfirst : runCommand busy s ["zpool".toList, "export".toList, p] = _ :=
      (runCommand_export p).trans (exportPool_idle (himported p List.mem_cons_self) (hidle 0 (Nat.succ_pos _)))
    have hrest : ∀ q ∈ pools, q ∈ s.imported.erase p := by
      intro q hq
      have hne : q ≠ p := fun heq => hp (heq ▸ hq)
      exact (List.mem_erase_of_ne hne).2 (himported q (List.mem_cons_of_mem p hq))
    rw [exportCommands, List.map_cons, runAndList, hfirst]
    change (runAndList busy _ (exportCommands pools)).2.exported = _
    rw [ih hpools hrest, List.append_assoc, List.singleton_append]
    intro i hi
    have hnext := hidle (i + 1) (Nat.succ_lt_succ hi)
    rwa [← Nat.add_assoc, Nat.add_right_comm] at hnext

/-- An attempt succeeds, and then the pool was not in use, or nothing is exported. -/
theorem exportPool_cases (p : List Char) :
    (busy s.attempts = false ∧ exportPool busy s p = (true, ⟨s.imported.erase p, s.exported ++ [p], s.attempts + 1⟩)) ∨
      exportPool busy s p = (false, { s with attempts := s.attempts + 1 }) := by
  unfold exportPool
  split
  case isTrue h => exact .inl ⟨h.2, rfl⟩
  case isFalse => exact .inr rfl

/-- If as many pools are exported as there are commands, no pool was in use. -/
theorem idle_of_exported
    (h : (runAndList busy s (exportCommands pools)).2.exported.length = s.exported.length + pools.length) :
    ∀ i < pools.length, busy (s.attempts + i) = false := by
  induction pools generalizing s with
  | nil => nofun
  | cons p pools ih =>
    rw [exportCommands, List.map_cons, runAndList, runCommand_export] at h
    rcases exportPool_cases p with ⟨hidle, heq⟩ | heq
    · rw [heq] at h
      change (runAndList busy _ (exportCommands pools)).2.exported.length = _ at h
      have hrest := ih (h.trans (by simp; omega))
      intro i hi
      cases i with
      | zero => exact hidle
      | succ i =>
        have hnext := hrest i (Nat.lt_of_succ_lt_succ hi)
        rwa [Nat.add_right_comm, Nat.add_assoc] at hnext
    · rw [heq] at h
      simp at h

end

/-! ## The action -/

/-- The action that `VmDiskContext::mount` registers ends with the pools that one run of the script leaves. -/
theorem endsIn_unmountAction {busy spawns : Nat → Bool} {zfsPools : List (List Char)} {n : Nat} {s s' : Pools}
    (h : Loop.EndsIn (unmountAction busy spawns zfsPools) (n, s) s') :
    s' = (runAndList busy s (Shell.andList (zfsExportScript zfsPools))).2 := by
  obtain ⟨fuel, hrun⟩ := h
  induction fuel generalizing n with
  | zero => cases hrun
  | succ fuel ih =>
    rw [Loop.runFor, unmountAction] at hrun
    split at hrun
    · next s'' hnext =>
      split at hnext
      · cases hnext
      · obtain rfl := Sum.inl.inj hnext
        exact ih hrun
    · next s'' hnext =>
      split at hnext
      · obtain rfl := Sum.inr.inj hnext
        exact (Option.some.inj hrun).symm
      · cases hnext

/-- When the action ends, the pools that were imported have been exported, each of them once, exactly when each of them has a data
set with a mount point that is not left out, no name has a blank in it, and no pool is in use at the one attempt that is made. -/
theorem exported_iff {busy spawns : Nat → Bool} {imported : List (List Char)} {datasets : List Dataset} {s : Pools}
    (hnodup : imported.Nodup) (hnames : ∀ pool ∈ imported, isPoolName pool = true) (hdatasets : ∀ ds ∈ datasets, ds.pool ∈ imported)
    (hend : Loop.EndsIn (unmountAction busy spawns (importAllZpools (some 0) datasets).2.2) (0, { imported }) s) :
    s.exported.Perm imported ↔
      (∀ pool ∈ imported, ∃ ds ∈ datasets, ds.pool = pool ∧ ds.mounted.isSome = true) ∧ (∀ pool ∈ imported, ' ' ∉ pool) ∧
        ∀ i < imported.length, busy i = false := by
  have hpools := endsIn_unmountAction hend
  have hmem : ∀ {pool}, pool ∈ (importAllZpools (some 0) datasets).2.2 ↔
      ∃ ds ∈ datasets, ds.pool = pool ∧ ds.mounted.isSome = true := mem_importedPools
  have hsub : ∀ pool ∈ (importAllZpools (some 0) datasets).2.2, pool ∈ imported := by
    intro pool hpool
    obtain ⟨ds, hds, rfl, -⟩ := hmem.1 hpool
    exact hdatasets ds hds
  have hunique : (importAllZpools (some 0) datasets).2.2.Nodup := nodup_uniquePools
  generalize (importAllZpools (some 0) datasets).2.2 = pools at hpools hmem hsub hunique
  rw [andList_zfsExportScript fun p hp => hnames p (hsub p hp)] at hpools
  -- without blanks, a command has one name
  have hplain : (∀ pool ∈ imported, ' ' ∉ pool) → s = (runAndList busy { imported } (exportCommands pools.reverse)).2 := by
    intro hblank
    have hcommands : pools.reverse.map (fun p => "zpool".toList :: "export".toList :: Shell.tokens p) =
        exportCommands pools.reverse := by
      refine List.map_congr_left ?_
      intro p hp
      have hp' := hsub p (List.mem_reverse.1 hp)
      rw [Shell.tokens_of_word (ne_nil_of_isPoolName (hnames p hp')) (hblank p hp')]
    rw [← hcommands]
    exact hpools
  have hperm : (∀ pool ∈ imported, pool ∈ pools) → pools.Perm imported := fun hall =>
    (List.perm_ext_iff_of_nodup hunique hnodup).2 fun pool => ⟨hsub pool, hall pool⟩
  constructor
  · intro hexported
    have hword : ∀ pool ∈ imported, ∃ p ∈ pools, pool ∈ Shell.tokens p := by
      intro pool hpool
      have hpool' := hexported.mem_iff.2 hpool
      rw [hpools] at hpool'
      rcases mem_exported_runAndList hpool' with h | ⟨command, hcommand, h⟩
      · cases h
      · obtain ⟨p, hp, rfl⟩ := List.mem_map.1 hcommand
        exact ⟨p, List.mem_reverse.1 hp, h⟩
    have hblank : ∀ pool ∈ imported, ' ' ∉ pool := by
      intro pool hpool
      obtain ⟨p, -, hp⟩ := hword pool hpool
      exact Shell.blank_notMem_of_mem_tokens hp
    have hall : ∀ pool ∈ imported, pool ∈ pools := by
      intro pool hpool
      obtain ⟨p, hp, hpool'⟩ := hword pool hpool
      have hp' := hsub p hp
      rw [Shell.tokens_of_word (ne_nil_of_isPoolName (hnames p hp')) (hblank p hp'), List.mem_singleton] at hpool'
      exact hpool' ▸ hp
    refine ⟨fun pool hpool => hmem.1 (hall pool hpool), hblank, ?_⟩
    have hlen := hexported.length_eq
    rw [hplain hblank, ← (hperm hall).length_eq] at hlen
    have hidle := idle_of_exported (hlen.trans (by simp))
    simpa [(hperm hall).length_eq] using hidle
  · rintro ⟨hcover, hblank, hidle⟩
    have hall : ∀ pool ∈ imported, pool ∈ pools := fun pool hpool => hmem.2 (hcover pool hpool)
    rw [hplain hblank, exported_of_idle (List.nodup_reverse.2 hunique) (by simpa using hsub)]
    · exact (List.reverse_perm pools).trans (hperm hall)
    · simpa [(hperm hall).length_eq] using hidle

/-! ## A disk with one pool -/

/-- A data set that is mounted. -/
def tankDataset : Dataset where
  name := "tank".toList
  pool := "tank".toList
  mountpoint := some "/mnt/zfs_root/tank".toList
  canmount := some "on".toList

theorem importedPools_tank : (importAllZpools (some 0) [tankDataset]).2.2 = ["tank".toList] := by
  have hmounted : tankDataset.mounted = some ⟨"tank".toList, "/mnt/zfs_root/tank".toList, "tank".toList, false⟩ := by decide
  change uniquePools (mountpointsFromJson [tankDataset]) = _
  simp [mountpointsFromJson, hmounted, uniquePools]

/-- A data set of a second pool. -/
def homeDataset : Dataset where
  name := "home".toList
  pool := "home".toList
  mountpoint := some "/mnt/zfs_root/home".toList
  canmount := some "on".toList

theorem importedPools_two : (importAllZpools (some 0) [homeDataset, tankDataset]).2.2 = ["home".toList, "tank".toList] := by
  have htank : tankDataset.mounted = some ⟨"tank".toList, "/mnt/zfs_root/tank".toList, "tank".toList, false⟩ := by decide
  have hhome : homeDataset.mounted = some ⟨"home".toList, "/mnt/zfs_root/home".toList, "home".toList, false⟩ := by decide
  have hsorted : mountpointsFromJson [homeDataset, tankDataset] =
      [⟨"home".toList, "/mnt/zfs_root/home".toList, "home".toList, false⟩,
        ⟨"tank".toList, "/mnt/zfs_root/tank".toList, "tank".toList, false⟩] := by
    unfold mountpointsFromJson
    simp only [List.filterMap_cons, htank, hhome, List.filterMap_nil]
    exact List.mergeSort_of_pairwise (by decide)
  change uniquePools (mountpointsFromJson [homeDataset, tankDataset]) = _
  rw [hsorted]
  rfl

/-- Two pools, and the shell cannot be started at first. -/
theorem exported_two_pools : ∃ s : Pools, Loop.EndsIn (unmountAction (fun _ => false) (fun n => n ≠ 0)
    (importAllZpools (some 0) [homeDataset, tankDataset]).2.2) (0, { imported := ["home".toList, "tank".toList] }) s ∧
      s.exported.Perm ["home".toList, "tank".toList] := by
  have hend : ∃ s : Pools, Loop.EndsIn (unmountAction (fun _ => false) (fun n => n ≠ 0)
      (importAllZpools (some 0) [homeDataset, tankDataset]).2.2) (0, { imported := ["home".toList, "tank".toList] }) s := by
    rw [importedPools_two]
    exact ⟨_, .of_inl rfl (.of_inr rfl)⟩
  obtain ⟨s, hs⟩ := hend
  refine ⟨s, hs, ?_⟩
  exact (exported_iff (by decide) (by decide) (by simp [homeDataset, tankDataset]) hs).2 ⟨by decide, by decide, by simp⟩

/-- A pool that is in use for a moment stays imported: the failure of the script is dropped. -/
theorem exported_false : ¬ ∀ (busy spawns : Nat → Bool) (imported : List (List Char)) (datasets : List Dataset) (s : Pools),
    imported.Nodup → (∀ pool ∈ imported, isPoolName pool = true) → (∀ ds ∈ datasets, ds.pool ∈ imported) →
      Loop.EndsIn (unmountAction busy spawns (importAllZpools (some 0) datasets).2.2) (0, { imported }) s →
        s.exported.Perm imported := by
  intro hall
  have hend : Loop.EndsIn (unmountAction (fun n => n = 0) (fun _ => true) (importAllZpools (some 0) [tankDataset]).2.2)
      (0, { imported := ["tank".toList] }) ⟨["tank".toList], [], 1⟩ := by
    rw [importedPools_tank]
    exact .of_inr (by decide)
  have hperm := hall _ _ _ _ _ (by decide) (by decide) (by simp [tankDataset]) hend
  exact absurd hperm.length_eq (by decide)

end Zfs

end Anylinuxfs
