import Mathlib.Data.List.Nodup

/-!
# Filling a map from another one

A map that is a list of entries takes over the entries of another one whose keys it does not have, in their order, if their keys
are allowed. What it has stays as it is, so the outcome has nothing left to take over (`fill_fill`).
-/

namespace Fill

variable {κ ν : Type} [BEq κ] [LawfulBEq κ] (allowed : κ → Bool)

/-- An entry is taken over unless its key is there or not allowed. -/
def add (dst : List (κ × ν)) (entry : κ × ν) : List (κ × ν) :=
  if dst.any (fun e => e.1 == entry.1) then dst else if allowed entry.1 then dst ++ [entry] else dst

/-- The entries of `src` are taken over one after another. -/
def fill (dst src : List (κ × ν)) : List (κ × ν) := src.foldl (add allowed) dst

variable {allowed} {dst src added : List (κ × ν)} {entry : κ × ν} {k : κ}

theorem any_key_iff : dst.any (fun e => e.1 == k) = true ↔ k ∈ dst.map Prod.fst := by
  simp

theorem lookup_eq_none_iff_notMem : dst.lookup k = none ↔ k ∉ dst.map Prod.fst := by
  rw [List.lookup_eq_none_iff, List.mem_map]
  constructor
  · rintro h ⟨e, he, rfl⟩
    exact absurd (h e he) (by simp)
  · intro h e he
    rw [bne_iff_ne]
    rintro rfl
    exact h ⟨e, he, rfl⟩

/-- An entry of a map whose keys differ is what its key gives. -/
theorem lookup_of_mem (hdistinct : (dst.map Prod.fst).Nodup) (h : entry ∈ dst) : dst.lookup entry.1 = some entry.2 := by
  induction dst with
  | nil => cases h
  | cons first dst ih =>
    obtain ⟨hnotMem, hdistinct⟩ := List.nodup_cons.1 hdistinct
    rcases List.mem_cons.1 h with rfl | h
    · rw [List.lookup_cons, beq_self_eq_true]
    · have hne : entry.1 ≠ first.1 := fun heq => hnotMem (heq ▸ List.mem_map_of_mem h)
      rw [List.lookup_cons, beq_eq_false_iff_ne.2 hne]
      exact ih hdistinct h

theorem add_of_mem (h : entry.1 ∈ dst.map Prod.fst) : add allowed dst entry = dst := if_pos (any_key_iff.2 h)

theorem add_of_notMem (h : entry.1 ∉ dst.map Prod.fst) (hallowed : allowed entry.1 = true) : add allowed dst entry = dst ++ [entry] := by
  rw [add, if_neg fun hany => h (any_key_iff.1 hany), if_pos hallowed]

omit [LawfulBEq κ] in
theorem add_of_forbidden (hallowed : allowed entry.1 = false) : add allowed dst entry = dst := by
  rw [add, hallowed]
  split
  · rfl
  · rfl

/-- The value of a key is that of the map, or else that of the other map if the key is allowed. -/
theorem lookup_fill (dst src : List (κ × ν)) (k : κ) :
    (fill allowed dst src).lookup k = (dst.lookup k).or (if allowed k then src.lookup k else none) := by
  induction src generalizing dst with
  | nil => rw [fill, List.foldl_nil, List.lookup_nil, ite_self, Option.or_none]
  | cons entry src ih =>
    rw [fill, List.foldl_cons]
    refine (ih (add allowed dst entry)).trans ?_
    by_cases hmem : entry.1 ∈ dst.map Prod.fst
    · rw [add_of_mem hmem]
      by_cases hk : k = entry.1
      · obtain ⟨v, hv⟩ := Option.ne_none_iff_exists'.1 fun hnone => lookup_eq_none_iff_notMem.1 hnone (hk ▸ hmem)
        rw [hv, Option.some_or, Option.some_or]
      · rw [List.lookup_cons, beq_eq_false_iff_ne.2 hk]
    · cases hallowed : allowed entry.1 with
      | false =>
        rw [add_of_forbidden hallowed]
        by_cases hk : k = entry.1
        · rw [hk, hallowed]
          rfl
        · rw [List.lookup_cons, beq_eq_false_iff_ne.2 hk]
      | true =>
        rw [add_of_notMem hmem hallowed, List.lookup_append]
        by_cases hk : k = entry.1
        · rw [hk, lookup_eq_none_iff_notMem.2 hmem, hallowed, if_pos rfl, List.lookup_cons, List.lookup_cons, beq_self_eq_true]
          rfl
        · rw [List.lookup_cons, List.lookup_cons, beq_eq_false_iff_ne.2 hk, List.lookup_nil, Option.or_none]

/-- Entries with new keys that are allowed. -/
structure New (allowed : κ → Bool) (dst added : List (κ × ν)) : Prop where
  distinct : (added.map Prod.fst).Nodup
  fresh : ∀ entry ∈ added, entry.1 ∉ dst.map Prod.fst
  allowed : ∀ entry ∈ added, allowed entry.1 = true

/-- The map is kept, and new entries come behind it. -/
theorem fill_eq_append (dst src : List (κ × ν)) : ∃ added, fill allowed dst src = dst ++ added ∧ New allowed dst added := by
  induction src generalizing dst with
  | nil => exact ⟨[], (List.append_nil dst).symm, .nil, nofun, nofun⟩
  | cons entry src ih =>
    rw [fill, List.foldl_cons]
    by_cases hnew : entry.1 ∉ dst.map Prod.fst ∧ allowed entry.1 = true
    · rw [add_of_notMem hnew.1 hnew.2]
      obtain ⟨added, hfill, hdistinct, hfresh, hallowed⟩ := ih (dst ++ [entry])
      have hnotMem : entry.1 ∉ added.map Prod.fst := by
        intro hmem
        obtain ⟨e, he, heq⟩ := List.mem_map.1 hmem
        exact hfresh e he (by simp [heq])
      refine ⟨entry :: added, hfill.trans (by rw [List.append_assoc]; rfl), List.nodup_cons.2 ⟨hnotMem, hdistinct⟩, ?_, ?_⟩
      · intro e he
        rcases List.mem_cons.1 he with rfl | he
        · exact hnew.1
        · exact fun hmem => hfresh e he (by rw [List.map_append]; exact List.mem_append_left _ hmem)
      · intro e he
        rcases List.mem_cons.1 he with rfl | he
        · exact hnew.2
        · exact hallowed e he
    · have hsame : add allowed dst entry = dst := by
        by_cases hmem : entry.1 ∈ dst.map Prod.fst
        · exact add_of_mem hmem
        · exact add_of_forbidden (Bool.eq_false_iff.2 fun hallowed => hnew ⟨hmem, hallowed⟩)
      rw [hsame]
      exact ih dst

/-- Nothing is taken over from entries whose keys are there. -/
theorem fill_of_mem (h : ∀ entry ∈ src, entry.1 ∈ dst.map Prod.fst) : fill allowed dst src = dst := by
  induction src with
  | nil => rfl
  | cons entry src ih =>
    rw [fill, List.foldl_cons, add_of_mem (h entry List.mem_cons_self)]
    exact ih fun e he => h e (List.mem_cons_of_mem entry he)

/-- New entries are all taken over. -/
theorem fill_new (h : New allowed dst added) : fill allowed dst added = dst ++ added := by
  induction added generalizing dst with
  | nil => exact (List.append_nil dst).symm
  | cons entry added ih =>
    obtain ⟨hnotMem, hdistinct⟩ := List.nodup_cons.1 h.distinct
    rw [fill, List.foldl_cons, add_of_notMem (h.fresh entry List.mem_cons_self) (h.allowed entry List.mem_cons_self)]
    refine (ih ⟨hdistinct, fun e he hmem => ?_, fun e he => h.allowed e (List.mem_cons_of_mem entry he)⟩).trans
      (by rw [List.append_assoc]; rfl)
    rw [List.map_append, List.mem_append] at hmem
    rcases hmem with hmem | hmem
    · exact h.fresh e (List.mem_cons_of_mem entry he) hmem
    · exact hnotMem (List.mem_singleton.1 hmem ▸ List.mem_map_of_mem he)

/-- A map that has been filled has nothing more to give. -/
theorem fill_fill (dst src : List (κ × ν)) : fill allowed dst (fill allowed dst src) = fill allowed dst src := by
  obtain ⟨added, hfill, hnew⟩ : ∃ added, fill allowed dst src = dst ++ added ∧ New allowed dst added := fill_eq_append dst src
  have hself : fill allowed dst dst = dst := fill_of_mem fun entry hentry => List.mem_map_of_mem hentry
  rw [hfill, fill, List.foldl_append]
  change fill allowed (fill allowed dst dst) added = dst ++ added
  rw [hself, fill_new hnew]

end Fill
