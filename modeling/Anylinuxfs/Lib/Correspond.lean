import Mathlib.Data.List.Forall2

/-!
# Lists that correspond

Two lists correspond if their elements do, one by one (`List.Forall₂`). A function that may fail, mapped over a list, gives a list
that corresponds to it.
-/

namespace Correspond

variable {α β : Type} {r : α → β → Prop} {l : List α} {l' : List β}

/-- Every element has one that corresponds to it. -/
theorem exists_right (h : List.Forall₂ r l l') {a : α} (ha : a ∈ l) : ∃ b ∈ l', r a b := by
  induction h with
  | nil => cases ha
  | cons hab _ ih =>
    rcases List.mem_cons.1 ha with rfl | ha
    · exact ⟨_, List.mem_cons_self, hab⟩
    · obtain ⟨b, hb, hr⟩ := ih ha
      exact ⟨b, List.mem_cons_of_mem _ hb, hr⟩

theorem exists_left (h : List.Forall₂ r l l') {b : β} (hb : b ∈ l') : ∃ a ∈ l, r a b := exists_right h.flip hb

/-- What a function that may fail gives for a list. -/
theorem mapM_eq_some_iff {f : α → Option β} : l.mapM f = some l' ↔ List.Forall₂ (fun a b => f a = some b) l l' := by
  induction l generalizing l' with
  | nil => rw [List.mapM_nil, List.forall₂_nil_left_iff, Option.pure_def, Option.some.injEq, eq_comm]
  | cons a l ih =>
    rw [List.mapM_cons, List.forall₂_cons_left_iff]
    simp only [Option.bind_eq_bind, Option.bind_eq_some_iff, ih, Option.pure_def, Option.some.injEq]
    constructor
    · rintro ⟨b, hb, rest, hrest, rfl⟩
      exact ⟨b, rest, hb, hrest, rfl⟩
    · rintro ⟨b, rest, hb, hrest, rfl⟩
      exact ⟨b, hb, rest, hrest, rfl⟩

/-- What a function that may fail with an error gives for a list. -/
theorem mapM_eq_ok_iff {ε : Type} {f : α → Except ε β} : l.mapM f = .ok l' ↔ List.Forall₂ (fun a b => f a = .ok b) l l' := by
  induction l generalizing l' with
  | nil =>
    rw [List.mapM_nil, List.forall₂_nil_left_iff]
    exact ⟨fun h => (Except.ok.inj h).symm, fun h => congrArg Except.ok h.symm⟩
  | cons a l ih =>
    rw [List.mapM_cons, List.forall₂_cons_left_iff]
    constructor
    · intro h
      cases hb : f a with
      | error err =>
        rw [hb] at h
        cases h
      | ok b =>
        cases hrest : l.mapM f with
        | error err =>
          rw [hb, hrest] at h
          cases h
        | ok rest =>
          rw [hb, hrest] at h
          exact ⟨b, rest, rfl, ih.1 hrest, (Except.ok.inj h).symm⟩
    · rintro ⟨b, rest, hb, hrest, rfl⟩
      rw [hb, ih.2 hrest]
      rfl

/-- A function that does not fail on a list. -/
theorem mapM_eq_some {f : α → Option β} {g : α → β} (h : ∀ a ∈ l, f a = some (g a)) : l.mapM f = some (l.map g) :=
  mapM_eq_some_iff.2 (List.forall₂_map_right_iff.2 (List.forall₂_same.2 h))

end Correspond
