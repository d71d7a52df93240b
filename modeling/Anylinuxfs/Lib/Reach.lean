import Mathlib.Data.List.Basic

/-!
# Runs of a partial step function

A system is a partial step function `step : σ → α → Option σ`: in the state `s` the action `a` is enabled when `step s a` is
some state. `Reach step ok s₀` are the states reached from `s₀` by runs whose every step meets `ok`, a condition on the state
before the step and the action; with `Any` these are all runs.
-/

namespace Transition

variable {σ α : Type}

/-- The states reached from `s₀` by a run whose every step meets `ok`. -/
inductive Reach (step : σ → α → Option σ) (ok : σ → α → Prop) (s₀ : σ) : σ → Prop where
  | init : Reach step ok s₀ s₀
  | step {s s' : σ} (a : α) : Reach step ok s₀ s → ok s a → step s a = some s' → Reach step ok s₀ s'

/-- The condition every step meets: a run under it is any run. -/
def Any (_ : σ) (_ : α) : Prop := True

/-- What holds at the start and is kept by every step that meets `ok` holds in every state such a run reaches. -/
theorem Reach.invariant {step : σ → α → Option σ} {ok : σ → α → Prop} {s₀ s : σ} (Inv : σ → Prop)
    (h0 : Inv s₀) (hstep : ∀ s a s', Inv s → ok s a → step s a = some s' → Inv s')
    (h : Reach step ok s₀ s) : Inv s := by
  induction h with
  | init => exact h0
  | step a _ ha hs ih => exact hstep _ a _ ih ha hs

/-- Take the actions of a list in order, as long as each is enabled. -/
def run (step : σ → α → Option σ) : σ → List α → Option σ
  | s, [] => some s
  | s, a :: rest => (step s a).bind (run step · rest)

theorem run_append (step : σ → α → Option σ) (s : σ) (l l' : List α) :
    run step s (l ++ l') = (run step s l).bind (run step · l') := by
  induction l generalizing s with
  | nil => rfl
  | cons a l ih =>
    simp only [List.cons_append, run, Option.bind_assoc]
    exact congrArg _ (funext fun s' => ih s')

/-- A run and one more action. -/
theorem run_snoc {step : σ → α → Option σ} {s s' : σ} {l : List α} {a : α} :
    run step s (l ++ [a]) = some s' ↔ ∃ s₁, run step s l = some s₁ ∧ step s₁ a = some s' := by
  rw [run_append, Option.bind_eq_some_iff]
  simp only [run, Option.bind_fun_some]

/-- A run of actions that all meet a decidable condition leads to a state that is reached under it. -/
theorem reach_of_run_guarded {step : σ → α → Option σ} {ok : σ → α → Prop} [∀ s a, Decidable (ok s a)] {s₀ s : σ} {l : List α}
    (h : run (fun s a => if ok s a then step s a else none) s₀ l = some s) : Reach step ok s₀ s := by
  suffices H : ∀ l s₁, Reach step ok s₀ s₁ → run (fun s a => if ok s a then step s a else none) s₁ l = some s →
      Reach step ok s₀ s from H l s₀ Reach.init h
  intro l
  induction l with
  | nil =>
    intro s₁ h₁ hr
    cases hr
    exact h₁
  | cons a rest ih =>
    intro s₁ h₁ hr
    simp only [run] at hr
    by_cases hok : ok s₁ a
    · rw [if_pos hok] at hr
      obtain ⟨s₂, hs, hr⟩ := Option.bind_eq_some_iff.1 hr
      exact ih s₂ (Reach.step a h₁ hok hs) hr
    · rw [if_neg hok] at hr
      cases hr

instance (s : σ) (a : α) : Decidable (Any s a) := inferInstanceAs (Decidable True)

/-- A list of actions that all meet a decidable condition leads to a state with a decidable property. -/
theorem exists_reach (step : σ → α → Option σ) (ok : σ → α → Prop) [∀ s a, Decidable (ok s a)] (Q : σ → Prop)
    [DecidablePred Q] (s₀ : σ) (l : List α)
    (h : (run (fun s a => if ok s a then step s a else none) s₀ l).any (fun s => decide (Q s)) = true) :
    ∃ s, Reach step ok s₀ s ∧ Q s := by
  cases hr : run (fun s a => if ok s a then step s a else none) s₀ l with
  | none =>
    rw [hr] at h
    cases h
  | some s =>
    rw [hr] at h
    exact ⟨s, reach_of_run_guarded hr, of_decide_eq_true h⟩

/-- The state a list of enabled actions leads to is reached by some run. -/
theorem reach_of_run {step : σ → α → Option σ} {s₀ s : σ} {l : List α} (h : run step s₀ l = some s) :
    Reach step Any s₀ s := by
  have hstep : (fun s a => if Any s a then step s a else none) = step := by
    funext s a
    exact if_pos trivial
  exact reach_of_run_guarded (by rwa [hstep])

end Transition
