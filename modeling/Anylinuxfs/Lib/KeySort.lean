import Mathlib.Data.List.Basic

/-!
# Sorting by a key

A stable sort by a key of elements that arrive in any order. Elements with the same key stay in the order in which they arrived
(`filter_sortBy`), so the result depends on the elements alone exactly when their keys are different (`sortBy_eq_iff`).
-/

namespace KeySort

variable {α κ : Type} [LE κ] [DecidableLE κ] (key : α → κ)

/-- The stable sort by the key. -/
def sortBy (l : List α) : List α := l.mergeSort fun a b => key a ≤ key b

theorem sortBy_perm (l : List α) : (sortBy key l).Perm l := List.mergeSort_perm l _

variable [Std.IsLinearOrder κ]

theorem key_le_trans (a b c : α) (hab : decide (key a ≤ key b) = true) (hbc : decide (key b ≤ key c) = true) :
    decide (key a ≤ key c) = true :=
  decide_eq_true (Std.le_trans (of_decide_eq_true hab) (of_decide_eq_true hbc))

theorem key_le_total (a b : α) : (decide (key a ≤ key b) || decide (key b ≤ key a)) = true := by
  rw [Bool.or_eq_true, decide_eq_true_eq, decide_eq_true_eq]
  exact Std.le_total

theorem pairwise_sortBy (l : List α) : (sortBy key l).Pairwise fun a b => key a ≤ key b :=
  (List.pairwise_mergeSort (key_le_trans key) (key_le_total key) l).imp of_decide_eq_true

/-- Elements with one key stay as they were. -/
theorem filter_sortBy [DecidableEq κ] (l : List α) (k : κ) :
    (sortBy key l).filter (fun a => key a = k) = l.filter (fun a => key a = k) := by
  have hsorted : (l.filter (fun a => key a = k)).Pairwise fun a b => decide (key a ≤ key b) = true := by
    rw [List.pairwise_filter]
    refine List.pairwise_iff_forall_sublist.2 fun _ ha hb => ?_
    rw [of_decide_eq_true ha, of_decide_eq_true hb]
    exact decide_eq_true (Std.le_refl k)
  have hsub : (l.filter (fun a => key a = k)).Sublist (sortBy key l) :=
    List.sublist_mergeSort (key_le_trans key) (key_le_total key) hsorted List.filter_sublist
  refine (List.Sublist.eq_of_length ?_ ((sortBy_perm key l).filter _).length_eq.symm).symm
  have hfilter := hsub.filter (fun a => decide (key a = k))
  simpa only [List.filter_filter, Bool.and_self] using hfilter

/-- The result does not depend on the order of the elements exactly when no two of them have the same key. -/
theorem sortBy_eq_iff [DecidableEq κ] {l : List α} :
    (∀ l' l'', l'.Perm l → l''.Perm l → sortBy key l' = sortBy key l'') ↔ ∀ a ∈ l, ∀ b ∈ l, key a = key b → a = b := by
  constructor
  · intro h a ha b hb hkey
    by_contra hne
    -- the two can come first, in either order
    obtain ⟨s, t, rfl⟩ := List.mem_iff_append.1 ha
    have hb' : b ∈ s ++ t := by
      rcases List.mem_append.1 hb with hb | hb
      · exact List.mem_append_left t hb
      · exact List.mem_append_right s ((List.mem_cons.1 hb).resolve_left (Ne.symm hne))
    obtain ⟨s', t', hst⟩ := List.mem_iff_append.1 hb'
    have hperm : (a :: b :: (s' ++ t')).Perm (s ++ a :: t) :=
      ((List.perm_middle.symm.cons a).trans (hst ▸ .refl _)).trans List.perm_middle.symm
    have heq := congrArg (List.filter fun c => key c = key a) (h _ _ hperm ((List.Perm.swap a b _).trans hperm))
    rw [filter_sortBy, filter_sortBy] at heq
    simp only [List.filter_cons, decide_true, hkey, if_true, List.cons.injEq] at heq
    exact hne heq.1
  · intro h l' l'' hl' hl''
    have hperm : (sortBy key l').Perm (sortBy key l'') :=
      (sortBy_perm key l').trans (hl'.trans (hl''.symm.trans (sortBy_perm key l'').symm))
    refine List.Perm.eq_of_pairwise (fun a b ha hb hab hba => ?_) (pairwise_sortBy key l') (pairwise_sortBy key l'') hperm
    have ha' := hl'.mem_iff.1 ((sortBy_perm key l').mem_iff.1 ha)
    have hb' := hl''.mem_iff.1 ((sortBy_perm key l'').mem_iff.1 hb)
    exact h a ha' b hb' (Std.le_antisymm hab hba)

/-- Of two elements, the one with the smaller key comes first. -/
theorem index_lt {l : List α} {i j : Nat} {a b : α} (ha : (sortBy key l)[i]? = some a) (hb : (sortBy key l)[j]? = some b)
    (hlt : ¬ key b ≤ key a) : i < j := by
  refine Nat.lt_of_not_le fun hle => ?_
  obtain ⟨hi, ha⟩ := List.getElem?_eq_some_iff.1 ha
  obtain ⟨hj, hb⟩ := List.getElem?_eq_some_iff.1 hb
  rcases Nat.eq_or_lt_of_le hle with rfl | hlt'
  · rw [← ha, ← hb] at hlt
    exact hlt (Std.le_refl _)
  · have hpair := List.pairwise_iff_getElem.1 (pairwise_sortBy key l) j i hj hi hlt'
    rw [ha, hb] at hpair
    exact hlt hpair

end KeySort
