import Mathlib.Data.List.Nodup
import Mathlib.Data.List.Induction

/-!
# Maps in the order of insertion

A map that is a list of entries, one for each key, in the order in which the keys came. Keys are compared by a part of them
(`key`); an entry keeps the key that it was made with. `foldl_upsert` says what a sequence of updates makes of the empty map: the
first key of each kind, with the updates of its kind.
-/

namespace IndexMap

variable {κ ι ν : Type} [DecidableEq ι] (key : κ → ι)

/-- The entry of a key is updated, and made first if there is none. -/
def upsert (k : κ) (init : ν) (f : ν → ν) : List (κ × ν) → List (κ × ν)
  | [] => [(k, f init)]
  | (k', v) :: rest => if key k' = key k then (k', f v) :: rest else (k', v) :: upsert k init f rest

/-- The elements that are the first of their kind. -/
def firsts : List κ → List κ
  | [] => []
  | k :: rest => k :: (firsts rest).filter fun k' => key k' ≠ key k

variable {key} {k : κ} {l : List κ}

theorem firsts_sublist : ∀ l : List κ, (firsts key l).Sublist l
  | [] => .slnil
  | _ :: rest => (List.filter_sublist.trans (firsts_sublist rest)).cons_cons _

theorem mem_of_mem_firsts (h : k ∈ firsts key l) : k ∈ l := (firsts_sublist l).subset h

/-- Every kind has its first element. -/
theorem exists_mem_firsts (h : k ∈ l) : ∃ k' ∈ firsts key l, key k' = key k := by
  induction l with
  | nil => cases h
  | cons a rest ih =>
    by_cases hkey : key a = key k
    · exact ⟨a, List.mem_cons_self, hkey⟩
    · have hrest : k ∈ rest := (List.mem_cons.1 h).resolve_left fun heq => hkey (heq ▸ rfl)
      obtain ⟨k', hk', heq⟩ := ih hrest
      refine ⟨k', List.mem_cons_of_mem a (List.mem_filter.2 ⟨hk', ?_⟩), heq⟩
      simpa [heq] using Ne.symm hkey

/-- There is one element of each kind. -/
theorem pairwise_firsts (l : List κ) : (firsts key l).Pairwise fun a b => key a ≠ key b := by
  induction l with
  | nil => exact .nil
  | cons a rest ih =>
    refine List.Pairwise.cons (fun b hb => ?_) (ih.sublist List.filter_sublist)
    have hne := (List.mem_filter.1 hb).2
    exact (of_decide_eq_true hne).symm

theorem eq_of_mem_firsts {a b : κ} (ha : a ∈ firsts key l) (hb : b ∈ firsts key l) (h : key a = key b) : a = b := by
  have hnodup : ((firsts key l).map key).Nodup := List.pairwise_map.2 (pairwise_firsts l)
  exact List.inj_on_of_nodup_map hnodup ha hb h

/-- One of the first elements is found by its kind. -/
theorem filter_firsts {p : κ → Bool} (hk : k ∈ firsts key l) (hp : ∀ a ∈ firsts key l, p a = true ↔ key a = key k) :
    (firsts key l).filter p = [k] := by
  obtain ⟨s, t, heq⟩ := List.append_of_mem hk
  have hdistinct : (firsts key l).Pairwise fun a b => key a ≠ key b := pairwise_firsts l
  rw [heq] at hp hdistinct ⊢
  rw [List.pairwise_append, List.pairwise_cons] at hdistinct
  have hs : s.filter p = [] := by
    refine List.filter_eq_nil_iff.2 fun a ha h => ?_
    exact hdistinct.2.2 a ha k List.mem_cons_self ((hp a (List.mem_append_left _ ha)).1 h)
  have ht : t.filter p = [] := by
    refine List.filter_eq_nil_iff.2 fun a ha h => ?_
    exact hdistinct.2.1.1 a ha ((hp a (List.mem_append_right _ (List.mem_cons_of_mem k ha))).1 h).symm
  rw [List.filter_append, hs, List.filter_cons, if_pos ((hp k (List.mem_append_right _ List.mem_cons_self)).2 rfl), ht,
    List.nil_append]

theorem firsts_append_singleton (l : List κ) (k : κ) :
    firsts key (l ++ [k]) = if key k ∈ l.map key then firsts key l else firsts key l ++ [k] := by
  induction l with
  | nil => rfl
  | cons a rest ih =>
    rw [List.cons_append, firsts, ih, firsts]
    by_cases hrest : key k ∈ rest.map key
    · have hmem : key k ∈ (a :: rest).map key := List.mem_cons_of_mem _ hrest
      rw [if_pos hrest, if_pos hmem]
    · rw [if_neg hrest, List.filter_append]
      by_cases ha : key k = key a
      · have hmem : key k ∈ (a :: rest).map key := List.mem_map.2 ⟨a, List.mem_cons_self, ha.symm⟩
        rw [if_pos hmem]
        simp [ha]
      · have hmem : key k ∉ (a :: rest).map key := by simpa [ha] using hrest
        rw [if_neg hmem]
        simp [ha]

/-! ## Updates -/

/-- An update of a key of which there is an entry. -/
theorem upsert_map_of_mem {init : ν} {f : ν → ν} {v : κ → ν} (hl : l.Pairwise fun a b => key a ≠ key b)
    (h : key k ∈ l.map key) : upsert key k init f (l.map fun k' => (k', v k')) =
      l.map fun k' => (k', if key k = key k' then f (v k') else v k') := by
  induction l with
  | nil => cases h
  | cons a rest ih =>
    rw [List.map_cons, upsert, List.map_cons]
    by_cases ha : key a = key k
    · rw [if_pos ha, if_pos ha.symm]
      congr 1
      refine List.map_congr_left fun b hb => ?_
      rw [if_neg (ha ▸ (List.pairwise_cons.1 hl).1 b hb)]
    · rw [if_neg ha, if_neg (Ne.symm ha), ih (List.pairwise_cons.1 hl).2 ((List.mem_cons.1 h).resolve_left (Ne.symm ha))]

/-- An update of a key of which there is no entry. -/
theorem upsert_map_of_notMem {init : ν} {f : ν → ν} {v : κ → ν} (h : key k ∉ l.map key) :
    upsert key k init f (l.map fun k' => (k', v k')) = (l.map fun k' => (k', v k')) ++ [(k, f init)] := by
  induction l with
  | nil => rfl
  | cons a rest ih =>
    rw [List.map_cons, List.mem_cons, not_or] at h
    rw [List.map_cons, upsert, if_neg (Ne.symm h.1), ih h.2, List.cons_append]

/-- What updates make of the empty map: `u` is an update of the key `k u` by `f u`. -/
theorem foldl_upsert {τ : Type} (key : κ → ι) (k : τ → κ) (init : ν) (f : τ → ν → ν) (us : List τ) :
    us.foldl (fun m u => upsert key (k u) init (f u) m) [] =
      (firsts key (us.map k)).map fun k' => (k', (us.filter fun u => key (k u) = key k').foldl (fun v u => f u v) init) := by
  induction us using List.reverseRecOn with
  | nil => rfl
  | append_singleton us u ih =>
    have hvalue : ∀ k', ((us ++ [u]).filter fun u => key (k u) = key k').foldl (fun v u => f u v) init =
        if key (k u) = key k' then f u ((us.filter fun u => key (k u) = key k').foldl (fun v u => f u v) init)
        else (us.filter fun u => key (k u) = key k').foldl (fun v u => f u v) init := by
      intro k'
      rw [List.filter_append, List.foldl_append, List.filter_singleton]
      by_cases hk : key (k u) = key k'
      · rw [decide_eq_true hk, if_pos hk]
        rfl
      · rw [decide_eq_false hk, if_neg hk]
        rfl
    rw [List.foldl_append, ih, List.map_append, List.map_cons, List.map_nil, firsts_append_singleton]
    simp only [hvalue, List.foldl_cons, List.foldl_nil]
    by_cases hmem : key (k u) ∈ (us.map k).map key
    · obtain ⟨a, ha, heq⟩ := List.mem_map.1 hmem
      obtain ⟨b, hb, heq'⟩ : ∃ b ∈ firsts key (us.map k), key b = key a := exists_mem_firsts ha
      have hfirst : key (k u) ∈ (firsts key (us.map k)).map key := List.mem_map.2 ⟨b, hb, heq'.trans heq⟩
      rw [if_pos hmem, upsert_map_of_mem (pairwise_firsts _) hfirst]
    · have hfirst : key (k u) ∉ (firsts key (us.map k)).map key := by
        intro h
        obtain ⟨b, hb, heq⟩ := List.mem_map.1 h
        exact hmem (List.mem_map.2 ⟨b, mem_of_mem_firsts hb, heq⟩)
      have hnone : (us.filter fun u' => key (k u') = key (k u)) = [] := by
        refine List.filter_eq_nil_iff.2 fun u' hu' => ?_
        simp only [decide_eq_true_eq]
        exact fun heq => hmem (List.mem_map.2 ⟨k u', List.mem_map_of_mem hu', heq⟩)
      rw [if_neg hmem, upsert_map_of_notMem hfirst, List.map_append, List.map_cons, List.map_nil, if_pos rfl, hnone]
      congr 1
      refine List.map_congr_left fun b hb => ?_
      rw [if_neg fun heq => hfirst (List.mem_map.2 ⟨b, hb, heq.symm⟩)]

end IndexMap
