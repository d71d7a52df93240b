import Anylinuxfs.ZfsDatasets

/-!
# The order of the data sets

The data sets come out of a map and a set without an order of their own and are sorted by their paths. So the result is always in
an order in which a directory comes before what is below it, but data sets with the same path are in any order, and the passphrase
for the nth data set goes to one of them or another.
-/

namespace Anylinuxfs

namespace Zfs

section

variable {datasets : List Dataset} {res res' : List Vmproxy.Mountpoint}

/-- The order of the list is one in which the containers can be visited. -/
theorem returned_mountpointsFromJson (datasets : List Dataset) : Returned datasets (mountpointsFromJson datasets) :=
  ⟨_, List.nodup_dedup _, fun mp => by rw [List.mem_dedup, List.mem_filterMap], rfl⟩

/-- The mount points in one order in which they can be visited. -/
theorem returned_iff : Returned datasets res ↔ ∃ visited : List Vmproxy.Mountpoint,
    visited.Perm (datasets.filterMap Dataset.mounted).dedup ∧ res = KeySort.sortBy Vmproxy.Mountpoint.path visited := by
  refine exists_congr fun visited => ?_
  rw [← and_assoc]
  refine and_congr ?_ Iff.rfl
  constructor
  · rintro ⟨hnodup, hmem⟩
    refine (List.perm_ext_iff_of_nodup hnodup (List.nodup_dedup _)).2 fun mp => ?_
    rw [hmem, List.mem_dedup, List.mem_filterMap]
  · intro hperm
    refine ⟨hperm.nodup_iff.2 (List.nodup_dedup _), fun mp => ?_⟩
    rw [hperm.mem_iff, List.mem_dedup, List.mem_filterMap]

/-- The result is determined exactly when the path of a mount point determines it. -/
theorem determined_iff : (∀ res res', Returned datasets res → Returned datasets res' → res = res') ↔
    ∀ ds ∈ datasets, ∀ ds' ∈ datasets, ∀ mp mp', ds.mounted = some mp → ds'.mounted = some mp' → mp.path = mp'.path → mp = mp' := by
  have hsort : (∀ res res', Returned datasets res → Returned datasets res' → res = res') ↔
      ∀ l l', l.Perm (datasets.filterMap Dataset.mounted).dedup → l'.Perm (datasets.filterMap Dataset.mounted).dedup →
        KeySort.sortBy Vmproxy.Mountpoint.path l = KeySort.sortBy Vmproxy.Mountpoint.path l' := by
    constructor
    · exact fun h l l' hl hl' => h _ _ (returned_iff.2 ⟨l, hl, rfl⟩) (returned_iff.2 ⟨l', hl', rfl⟩)
    · intro h res res' hres hres'
      obtain ⟨l, hl, rfl⟩ := returned_iff.1 hres
      obtain ⟨l', hl', rfl⟩ := returned_iff.1 hres'
      exact h l l' hl hl'
  rw [hsort, KeySort.sortBy_eq_iff]
  simp only [List.mem_dedup, List.mem_filterMap]
  constructor
  · exact fun h ds hds ds' hds' mp mp' hmp hmp' => h mp ⟨ds, hds, hmp⟩ mp' ⟨ds', hds', hmp'⟩
  · rintro h mp ⟨ds, hds, hmp⟩ mp' ⟨ds', hds', hmp'⟩
    exact h ds hds ds' hds' mp mp' hmp hmp'

/-- A directory comes before what is below it. -/
theorem lt_of_properPathPrefix {path child : List Char} (h : ProperPathPrefix path child) : ¬ child ≤ path := by
  obtain ⟨rest, hne, rfl, -⟩ := h
  intro hle
  have hle' : path ≤ path ++ rest := by
    by_contra hlt
    exact List.le_append_left (not_le.1 hlt)
  have heq := le_antisymm hle hle'
  exact hne (List.append_right_eq_self.1 heq)

theorem parentFirst_of_returned (h : Returned datasets res) {i j : Nat} {mp mp' : Vmproxy.Mountpoint} (hi : res[i]? = some mp)
    (hj : res[j]? = some mp') (hpath : ProperPathPrefix mp.path mp'.path) : i < j := by
  obtain ⟨l, -, rfl⟩ := returned_iff.1 h
  exact KeySort.index_lt _ hi hj (lt_of_properPathPrefix hpath)

end

/-- The data sets are in an order that the document determines, parents first, exactly when no two of them with a mount point
differ and have the same path. -/
theorem datasetOrder_iff (datasets : List Dataset) : DatasetOrder datasets ↔
    ∀ ds ∈ datasets, ∀ ds' ∈ datasets, ∀ mp mp', ds.mounted = some mp → ds'.mounted = some mp' → mp.path = mp'.path → mp = mp' := by
  rw [← determined_iff]
  exact ⟨DatasetOrder.determined, fun h => ⟨h, fun _ hres _ _ _ _ hi hj => parentFirst_of_returned hres hi hj⟩⟩

/-- A system with two boot environments. -/
def bootEnvironments : List Dataset :=
  [⟨"rpool/ROOT/ubuntu_a".toList, "rpool".toList, some "/".toList, some "noauto".toList, some "off".toList⟩,
    ⟨"rpool/ROOT/ubuntu_b".toList, "rpool".toList, some "/".toList, some "noauto".toList, some "aes-256-gcm".toList⟩]

/-- Two boot environments have the same mount point. -/
theorem datasetOrder_false : ¬ ∀ datasets, DatasetOrder datasets := by
  intro h
  have heq := determined_iff.1 (h bootEnvironments).determined _ List.mem_cons_self _ (List.mem_cons_of_mem _ List.mem_cons_self)
    ⟨"rpool/ROOT/ubuntu_a".toList, "/".toList, "rpool".toList, false⟩
    ⟨"rpool/ROOT/ubuntu_b".toList, "/".toList, "rpool".toList, true⟩ (by decide) (by decide) rfl
  exact absurd heq (by decide)

end Zfs

end Anylinuxfs
