import Mathlib.Data.List.Induction
import Anylinuxfs.NfsShare

/-!
# Lemmas about the trie of subdirectories

A trie is a map from component lists to paths: its entries. An insertion overwrites the entry of its own components and keeps the
others, so the subdirectories that are mounted are those that no later one with the same components replaces.
-/

namespace Anylinuxfs

namespace DirTrie

mutual

/-- The entries of a trie: the components that lead to a node, and the paths it has. -/
def entries : DirTrie → List (List Bytes × Bytes × Bytes)
  | .node paths children => paths.toList.map (fun p => ([], p)) ++ entriesOf children

/-- The entries of the children of a node. -/
def entriesOf : List (Bytes × DirTrie) → List (List Bytes × Bytes × Bytes)
  | [] => []
  | (name, child) :: rest => child.entries.map (fun e => (name :: e.1, e.2)) ++ entriesOf rest

end

mutual

/-- The children of every node have different names, as the keys of a map do. -/
def Distinct : DirTrie → Prop
  | .node _ children => DistinctOf children

/-- The children have different names, and so have theirs. -/
def DistinctOf : List (Bytes × DirTrie) → Prop
  | [] => True
  | (name, child) :: rest => name ∉ rest.map Prod.fst ∧ child.Distinct ∧ DistinctOf rest

end

mutual

/-- The mounts of a trie are the paths of its entries. -/
theorem mounts_eq : ∀ t : DirTrie, t.mounts = t.entries.map Prod.snd
  | .node paths children => by
    rw [mounts, entries, mountsOf_eq children, List.map_append, List.map_map]
    cases paths <;> rfl

theorem mountsOf_eq : ∀ children : List (Bytes × DirTrie), mountsOf children = (entriesOf children).map Prod.snd
  | [] => rfl
  | (name, child) :: rest => by
    rw [mountsOf, entriesOf, mounts_eq child, mountsOf_eq rest, List.map_append, List.map_map]
    rfl

end

section

variable {children : List (Bytes × DirTrie)} {segment name : Bytes} {f : DirTrie → DirTrie} {key : List Bytes}
  {paths e : Bytes × Bytes}

/-- The entries of the children lie behind the name of one of them. -/
theorem name_of_mem_entriesOf (h : (key, e) ∈ entriesOf children) :
    ∃ name rest, key = name :: rest ∧ name ∈ children.map Prod.fst := by
  induction children with
  | nil => cases h
  | cons c children ih =>
    obtain ⟨name, child⟩ := c
    rw [entriesOf, List.mem_append, List.mem_map] at h
    rcases h with ⟨e', _, he⟩ | h
    · cases he
      exact ⟨name, e'.1, rfl, List.mem_cons_self⟩
    · obtain ⟨n, rest, hk, hn⟩ := ih h
      exact ⟨n, rest, hk, List.mem_cons_of_mem _ hn⟩

theorem mem_entriesOf_cons {child : DirTrie} {head : Bytes} {tail : List Bytes} :
    (head :: tail, e) ∈ entriesOf ((name, child) :: children) ↔
      (head = name ∧ (tail, e) ∈ child.entries) ∨ (head :: tail, e) ∈ entriesOf children := by
  rw [entriesOf, List.mem_append, List.mem_map]
  refine or_congr_left ⟨?_, ?_⟩
  · rintro ⟨e', hmem, he⟩
    cases he
    exact ⟨rfl, hmem⟩
  · rintro ⟨rfl, hmem⟩
    exact ⟨(tail, e), hmem, rfl⟩

theorem map_fst_update (segment : Bytes) (f : DirTrie → DirTrie) (children : List (Bytes × DirTrie)) :
    ∀ name, name ∈ (update segment f children).map Prod.fst ↔ name = segment ∨ name ∈ children.map Prod.fst := by
  intro name
  induction children with
  | nil => simp [update]
  | cons c children ih =>
    obtain ⟨n, child⟩ := c
    rw [update]
    split
    case isTrue h =>
      subst h
      simp
    case isFalse h =>
      rw [List.map_cons, List.map_cons, List.mem_cons, List.mem_cons, ih]
      exact or_left_comm

theorem DistinctOf.update (hf : ∀ t : DirTrie, t.Distinct → (f t).Distinct) (h : DistinctOf children) :
    DistinctOf (DirTrie.update segment f children) := by
  induction children with
  | nil =>
    refine ⟨by simp, hf _ ?_, trivial⟩
    exact trivial
  | cons c children ih =>
    obtain ⟨n, child⟩ := c
    obtain ⟨hn, hchild, hrest⟩ := h
    rw [DirTrie.update]
    split
    · exact ⟨hn, hf child hchild, hrest⟩
    · next hne =>
      refine ⟨fun hmem => ?_, hchild, ih hrest⟩
      rcases (map_fst_update segment f children n).1 hmem with h | h
      · exact hne h
      · exact hn h

theorem Distinct.insert {t : DirTrie} (h : t.Distinct) : (DirTrie.insert paths key t).Distinct := by
  induction key generalizing t with
  | nil =>
    cases t
    exact h
  | cons segment key ih =>
    cases t with
    | node own children =>
      rw [DirTrie.insert]
      exact DistinctOf.update (fun t ht => ih ht) h

theorem nil_notMem_entriesOf : ([], e) ∉ entriesOf children := by
  intro h
  obtain ⟨_, _, hk, _⟩ := name_of_mem_entriesOf h
  cases hk

/-- A changed child overwrites the entries behind its name and keeps the others. -/
theorem mem_entriesOf_update {rest : List Bytes} (h : DistinctOf children)
    (hf : ∀ t : DirTrie, t.Distinct → ∀ k, (k, e) ∈ (f t).entries ↔ (k = rest ∧ e = paths) ∨ (k ≠ rest ∧ (k, e) ∈ t.entries)) :
    (key, e) ∈ entriesOf (update segment f children) ↔
      (key = segment :: rest ∧ e = paths) ∨ (key ≠ segment :: rest ∧ (key, e) ∈ entriesOf children) := by
  cases key with
  | nil => simp [nil_notMem_entriesOf]
  | cons head tail =>
    rw [ne_eq, List.cons.injEq]
    induction children with
    | nil =>
      rw [update, mem_entriesOf_cons, hf (.node none []) trivial]
      simp [entries, entriesOf, and_assoc]
    | cons c children ih =>
      obtain ⟨n, child⟩ := c
      obtain ⟨hn, hchild, hrest⟩ := h
      rw [update]
      by_cases hseg : n = segment
      · have hbehind : (head :: tail, e) ∈ entriesOf children → head ≠ n := by
          intro hmem heq
          obtain ⟨n', _, hk, hmem'⟩ := name_of_mem_entriesOf hmem
          cases hk
          exact hn (heq ▸ hmem')
        rw [if_pos hseg, mem_entriesOf_cons, mem_entriesOf_cons, hf child hchild, ← hseg]
        grind
      · have hne : head = n → head ≠ segment := fun h1 h2 => hseg (h1.symm.trans h2)
        rw [if_neg hseg, mem_entriesOf_cons, mem_entriesOf_cons, ih hrest]
        grind

theorem mem_entries_node {own : Option (Bytes × Bytes)} :
    (key, e) ∈ (DirTrie.node own children).entries ↔ (key = [] ∧ own = some e) ∨ (key, e) ∈ entriesOf children := by
  rw [entries, List.mem_append]
  cases own <;> simp [eq_comm]

/-- An insertion overwrites the entry of its components and keeps the others. -/
theorem mem_entries_insert {t : DirTrie} (h : t.Distinct) (target : List Bytes) :
    (key, e) ∈ (insert paths target t).entries ↔ (key = target ∧ e = paths) ∨ (key ≠ target ∧ (key, e) ∈ t.entries) := by
  induction target generalizing t key with
  | nil =>
    obtain ⟨own, children⟩ := t
    rw [insert, mem_entries_node, mem_entries_node, Option.some.injEq, eq_comm (a := paths)]
    have hne : (key, e) ∈ entriesOf children → key ≠ [] := fun hmem hk => nil_notMem_entriesOf (hk ▸ hmem)
    grind
  | cons segment rest ih =>
    obtain ⟨own, children⟩ := t
    rw [insert, mem_entries_node, mem_entries_node, mem_entriesOf_update h fun t ht k => ih ht]
    have hne : key = [] → key ≠ segment :: rest := fun hk => hk ▸ List.cons_ne_nil _ _ ∘ Eq.symm
    grind

end

end DirTrie

/-! ## The subdirectories that are mounted -/

/-- The subdirectory is in the list and no later one has the same components under the share. -/
def Mounted (sharePathBase : Bytes) (subdirs : List Bytes) (subdir : Bytes) : Prop :=
  ∃ earlier later, subdirs = earlier ++ subdir :: later ∧
    ∀ other ∈ later, components (subdirRelative sharePathBase other) ≠ components (subdirRelative sharePathBase subdir)

/-- The last one of some subdirectories with the same components is mounted. -/
theorem exists_mounted {sharePath : Bytes} {subdirs : List Bytes} {subdir : Bytes} (hmem : subdir ∈ subdirs)
    (hapart : ∀ other ∈ subdirs, components (subdirRelative sharePath other) = components (subdirRelative sharePath subdir) →
      other = subdir) : Mounted sharePath subdirs subdir := by
  obtain ⟨later, earlier, hsplit, hnotMem⟩ := List.eq_append_cons_of_mem (List.mem_reverse.2 hmem)
  refine ⟨earlier.reverse, later.reverse, ?_, ?_⟩
  · rw [← List.reverse_reverse subdirs, hsplit]
    simp
  · intro other hother heq
    have hlater := List.mem_reverse.1 hother
    have hsubdirs : other ∈ subdirs := by
      rw [← List.mem_reverse, hsplit]
      exact List.mem_append_left _ hlater
    exact hnotMem (hapart other hsubdirs heq ▸ hlater)

theorem Mounted.mem {sharePath : Bytes} {subdirs : List Bytes} {subdir : Bytes} (h : Mounted sharePath subdirs subdir) :
    subdir ∈ subdirs := by
  obtain ⟨earlier, later, rfl, -⟩ := h
  exact List.mem_append_right _ List.mem_cons_self

theorem distinct_subdirTrie (sharePathBase : Bytes) (subdirs : List Bytes) : (subdirTrie sharePathBase subdirs).Distinct := by
  induction subdirs using List.reverseRecOn with
  | nil => exact (trivial : DirTrie.DistinctOf [])
  | append_singleton subdirs subdir ih =>
    rw [subdirTrie, List.foldl_append]
    exact ih.insert

/-- A list with one more subdirectory at its end mounts that one and those whose components it does not have. -/
theorem mounted_append_singleton (sharePathBase : Bytes) (subdirs : List Bytes) (last subdir : Bytes) :
    Mounted sharePathBase (subdirs ++ [last]) subdir ↔ subdir = last ∨
      (components (subdirRelative sharePathBase subdir) ≠ components (subdirRelative sharePathBase last) ∧
        Mounted sharePathBase subdirs subdir) := by
  constructor
  · rintro ⟨earlier, later, heq, hlater⟩
    rcases List.eq_nil_or_concat later with rfl | ⟨later, x, rfl⟩
    · exact Or.inl (List.singleton_inj.1 (List.append_inj_right' heq rfl)).symm
    · rw [List.concat_eq_append] at heq hlater
      have heq' : subdirs ++ [last] = (earlier ++ subdir :: later) ++ [x] := by simpa using heq
      obtain rfl : last = x := List.singleton_inj.1 (List.append_inj_right' heq' rfl)
      refine Or.inr ⟨Ne.symm (hlater last (by simp)), earlier, later, List.append_inj_left' heq' rfl, ?_⟩
      exact fun other hother => hlater other (List.mem_append_left _ hother)
  · rintro (rfl | ⟨hne, earlier, later, rfl, hlater⟩)
    · exact ⟨subdirs, [], rfl, fun _ h => absurd h List.not_mem_nil⟩
    · refine ⟨earlier, later ++ [last], by simp, fun other hother => ?_⟩
      rcases List.mem_append.1 hother with h | h
      · exact hlater other h
      · rw [List.mem_singleton.1 h]
        exact Ne.symm hne

/-- The entries of the trie are the subdirectories that are mounted. -/
theorem mem_entries_subdirTrie (sharePathBase : Bytes) (subdirs : List Bytes) (key : List Bytes) (e : Bytes × Bytes) :
    (key, e) ∈ (subdirTrie sharePathBase subdirs).entries ↔ ∃ subdir, Mounted sharePathBase subdirs subdir ∧
      e = (subdirRelative sharePathBase subdir, subdir) ∧ key = components (subdirRelative sharePathBase subdir) := by
  induction subdirs using List.reverseRecOn generalizing key e with
  | nil =>
    refine ⟨fun h => ?_, ?_⟩
    · cases h
    · rintro ⟨subdir, ⟨earlier, later, heq, _⟩, _⟩
      simp at heq
  | append_singleton subdirs last ih =>
    simp only [mounted_append_singleton]
    have hstep : subdirTrie sharePathBase (subdirs ++ [last]) = (subdirTrie sharePathBase subdirs).insert
        (subdirRelative sharePathBase last, last) (components (subdirRelative sharePathBase last)) := by
      rw [subdirTrie, List.foldl_append]
      rfl
    rw [hstep, DirTrie.mem_entries_insert (distinct_subdirTrie sharePathBase subdirs), ih]
    constructor
    · rintro (⟨hkey, he⟩ | ⟨hne, subdir, hmounted, he, hkey⟩)
      · exact ⟨last, Or.inl rfl, he, hkey⟩
      · exact ⟨subdir, Or.inr ⟨hkey ▸ hne, hmounted⟩, he, hkey⟩
    · rintro ⟨subdir, rfl | ⟨hne, hmounted⟩, he, hkey⟩
      · exact Or.inl ⟨hkey, he⟩
      · exact Or.inr ⟨hkey ▸ hne, subdir, hmounted, he, hkey⟩

/-- The mounts of the subdirectories, in terms of the exports. -/
theorem mem_subdirMounts (setup : NfsShareSetup) (exports : List (List Char)) (mountPoint share target : Bytes) :
    (share, target) ∈ setup.subdirMounts exports mountPoint ↔
      Mounted setup.sharePath ((exports.map utf8).filter (· ≠ setup.sharePath)) share ∧
        target = pathJoin mountPoint (subdirRelative setup.sharePath share) := by
  simp only [NfsShareSetup.subdirMounts, DirTrie.mounts_eq, List.map_map, List.mem_map, Prod.exists, Function.comp,
    mem_entries_subdirTrie, Prod.mk.injEq]
  constructor
  · rintro ⟨key, rel, sub, ⟨subdir, hmounted, ⟨rfl, rfl⟩, rfl⟩, rfl, rfl⟩
    exact ⟨hmounted, rfl⟩
  · rintro ⟨hmounted, rfl⟩
    exact ⟨_, _, share, ⟨share, hmounted, ⟨rfl, rfl⟩, rfl⟩, rfl, rfl⟩

end Anylinuxfs
