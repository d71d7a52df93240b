import Mathlib.Data.List.Basic

/-!
# Loops that may not end

A loop is a step function `step : σ → σ ⊕ β`: the next state, or the result with which the loop ends. `runFor` runs it for a
number of steps; `EndsIn` and `Diverges` say what it does when nobody counts.
-/

namespace Loop

variable {σ β : Type} {step : σ → σ ⊕ β}

/-- At most `fuel` steps; the result if the loop ended by then. -/
def runFor (step : σ → σ ⊕ β) : Nat → σ → Option β
  | 0, _ => none
  | fuel + 1, s =>
    match step s with
    | .inl s' => runFor step fuel s'
    | .inr b => some b

/-- The loop ends, with the result `b`. -/
def EndsIn (step : σ → σ ⊕ β) (s : σ) (b : β) : Prop := ∃ fuel, runFor step fuel s = some b

/-- The loop never ends. -/
def Diverges (step : σ → σ ⊕ β) (s : σ) : Prop := ∀ fuel, runFor step fuel s = none

/-- The states a loop goes through on its way. -/
inductive Leads (step : σ → σ ⊕ β) (s : σ) : σ → Prop where
  | refl : Leads step s s
  | tail {s' s'' : σ} : Leads step s s' → step s' = .inl s'' → Leads step s s''

theorem EndsIn.of_inr {s : σ} {b : β} (h : step s = .inr b) : EndsIn step s b :=
  ⟨1, by simp only [runFor, h]⟩

theorem EndsIn.of_inl {s s' : σ} {b : β} (h : step s = .inl s') (he : EndsIn step s' b) : EndsIn step s b := by
  obtain ⟨fuel, hf⟩ := he
  exact ⟨fuel + 1, by simp only [runFor, h, hf]⟩

/-- A loop that passes through a state ends as it ends from there. -/
theorem Leads.endsIn {s s' : σ} {b : β} (h : Leads step s s') (he : EndsIn step s' b) : EndsIn step s b := by
  induction h with
  | refl => exact he
  | tail _ hs ih => exact ih (EndsIn.of_inl hs he)

theorem Leads.trans {s s' s'' : σ} (h : Leads step s s') (h' : Leads step s' s'') : Leads step s s'' := by
  induction h' with
  | refl => exact h
  | tail _ hs ih => exact Leads.tail ih hs

/-- More fuel does not change a result. -/
theorem runFor_mono {fuel fuel' : Nat} (hle : fuel ≤ fuel') {s : σ} {b : β} (h : runFor step fuel s = some b) :
    runFor step fuel' s = some b := by
  induction fuel generalizing s fuel' with
  | zero => cases h
  | succ fuel ih =>
    obtain ⟨k, rfl⟩ : ∃ k, fuel' = k + 1 := ⟨fuel' - 1, by omega⟩
    simp only [runFor] at h ⊢
    cases hs : step s with
    | inl s' =>
      rw [hs] at h
      exact ih (by omega) h
    | inr b' =>
      rw [hs] at h
      exact h

/-- A loop has one result. -/
theorem EndsIn.unique {s : σ} {b b' : β} (h : EndsIn step s b) (h' : EndsIn step s b') : b = b' := by
  obtain ⟨f, hf⟩ := h
  obtain ⟨f', hf'⟩ := h'
  have h1 := runFor_mono (Nat.le_max_left f f') hf
  have h2 := runFor_mono (Nat.le_max_right f f') hf'
  rw [h1] at h2
  exact Option.some.inj h2

/-- A result found from a state is found, with no more fuel, from any state the loop passes through. -/
theorem Leads.result {s s' : σ} (h : Leads step s s') {fuel : Nat} {b : β} (hr : runFor step fuel s = some b) :
    ∃ fuel' ≤ fuel, runFor step fuel' s' = some b := by
  induction h with
  | refl => exact ⟨fuel, Nat.le_refl _, hr⟩
  | tail _ hs ih =>
    obtain ⟨f, hle, he⟩ := ih
    cases f with
    | zero => cases he
    | succ f =>
      simp only [runFor, hs] at he
      exact ⟨f, by omega, he⟩

/-- A loop that passes through a state from which it never ends never ends. -/
theorem Leads.diverges {s s' : σ} (h : Leads step s s') (hd : Diverges step s') : Diverges step s := by
  intro fuel
  cases hf : runFor step fuel s with
  | none => rfl
  | some b =>
    obtain ⟨fuel', -, hr⟩ := h.result hf
    rw [hd fuel'] at hr
    cases hr

/-- Rule for loops that end: what every step keeps while a measure goes down, and what then holds of the result. -/
theorem EndsIn.of_measure (Inv : σ → Prop) (μ : σ → Nat) (Post : β → Prop)
    (hnext : ∀ s s', Inv s → step s = .inl s' → Inv s' ∧ μ s' < μ s) (hend : ∀ s b, Inv s → step s = .inr b → Post b) {s : σ}
    (h : Inv s) : ∃ b, EndsIn step s b ∧ Post b := by
  induction hn : μ s using Nat.strongRecOn generalizing s with
  | ind n ih =>
    cases hs : step s with
    | inl s' =>
      obtain ⟨hinv, hlt⟩ := hnext s s' h hs
      obtain ⟨b, hends, hpost⟩ := ih (μ s') (hn ▸ hlt) hinv rfl
      exact ⟨b, EndsIn.of_inl hs hends, hpost⟩
    | inr b => exact ⟨b, EndsIn.of_inr hs, hend s b h hs⟩

/-- Invariant rule for divergence: a set of states to which the loop always returns, after one step or more. -/
theorem Diverges.of_invariant (Inv : σ → Prop)
    (hstep : ∀ s, Inv s → ∃ s₁ s', step s = .inl s₁ ∧ Leads step s₁ s' ∧ Inv s') {s : σ} (h : Inv s) : Diverges step s := by
  intro fuel
  induction fuel using Nat.strongRecOn generalizing s with
  | ind fuel ih =>
    cases fuel with
    | zero => rfl
    | succ fuel =>
      obtain ⟨s₁, s', hs, hl, hi⟩ := hstep s h
      simp only [runFor, hs]
      cases hf : runFor step fuel s₁ with
      | none => rfl
      | some b =>
        obtain ⟨fuel', hle, hr⟩ := hl.result hf
        rw [ih fuel' (by omega) hi] at hr
        cases hr

end Loop
