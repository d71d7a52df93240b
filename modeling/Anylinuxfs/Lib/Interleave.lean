import Mathlib.Data.List.Perm.Basic

/-!
# Two runs at the same time

The steps of two runs that go on at the same time, in any order that keeps the order of each of them.
-/

namespace Interact

variable {α : Type}

/-- The third list is an interleaving of the first two. -/
inductive Interleave : List α → List α → List α → Prop where
  | nil : Interleave [] [] []
  | left {a : α} {xs ys zs : List α} (h : Interleave xs ys zs) : Interleave (a :: xs) ys (a :: zs)
  | right {b : α} {xs ys zs : List α} (h : Interleave xs ys zs) : Interleave xs (b :: ys) (b :: zs)

namespace Interleave

variable {xs ys zs : List α}

/-- The steps of the two, and no others. -/
theorem perm (h : Interleave xs ys zs) : zs.Perm (xs ++ ys) := by
  induction h with
  | nil => exact .refl _
  | left _ ih => exact ih.cons _
  | right _ ih => exact (ih.cons _).trans List.perm_middle.symm

/-- The order of the first one is kept. -/
theorem sublist_left (h : Interleave xs ys zs) : xs.Sublist zs := by
  induction h with
  | nil => exact .refl _
  | left _ ih => exact ih.cons_cons _
  | right _ ih => exact ih.cons _

/-- The order of the second one is kept. -/
theorem sublist_right (h : Interleave xs ys zs) : ys.Sublist zs := by
  induction h with
  | nil => exact .refl _
  | left _ ih => exact ih.cons _
  | right _ ih => exact ih.cons_cons _

/-- One after the other is an interleaving. -/
theorem append (xs ys : List α) : Interleave xs ys (xs ++ ys) := by
  induction xs with
  | nil =>
    induction ys with
    | nil => exact .nil
    | cons y ys ih => exact ih.right
  | cons x xs ih => exact ih.left

/-- A last step of either of the two. -/
theorem append_last {a : α} (h : Interleave xs ys zs) :
    Interleave (xs ++ [a]) ys (zs ++ [a]) ∧ Interleave xs (ys ++ [a]) (zs ++ [a]) := by
  induction h with
  | nil => exact ⟨.left .nil, .right .nil⟩
  | left _ ih => exact ⟨ih.1.left, ih.2.left⟩
  | right _ ih => exact ⟨ih.1.right, ih.2.right⟩

/-- Read backwards, it is an interleaving of the two read backwards. -/
theorem reverse (h : Interleave xs ys zs) : Interleave xs.reverse ys.reverse zs.reverse := by
  induction h with
  | nil => exact .nil
  | left _ ih =>
    rw [List.reverse_cons, List.reverse_cons]
    exact ih.append_last.1
  | right _ ih =>
    rw [List.reverse_cons, List.reverse_cons]
    exact ih.append_last.2

end Interleave

end Interact
