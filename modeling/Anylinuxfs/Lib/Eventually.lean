import Anylinuxfs.Lib.Reach

/-!
# What every run comes to

`Inevitable step Goal s`: however the steps of the system are chosen from `s` on, it comes to a state with the property; it
neither gets stuck before that nor goes on for ever.
-/

namespace Transition

variable {σ α : Type} {step : σ → α → Option σ} {Goal Goal' : σ → Prop} {s : σ}

/-- Every run from the state comes to a state with the property. -/
inductive Inevitable (step : σ → α → Option σ) (Goal : σ → Prop) : σ → Prop where
  | now {s : σ} : Goal s → Inevitable step Goal s
  | later {s : σ} : (∃ a s', step s a = some s') → (∀ a s', step s a = some s' → Inevitable step Goal s') → Inevitable step Goal s

namespace Inevitable

/-- An invariant, a step wherever the property does not hold yet, and a number that every step makes smaller. -/
theorem of_measure (Inv : σ → Prop) (μ : σ → Nat) (hprogress : ∀ s, Inv s → ¬Goal s → ∃ a s', step s a = some s')
    (hkeep : ∀ s a s', Inv s → step s a = some s' → Inv s') (hless : ∀ s a s', Inv s → step s a = some s' → μ s' < μ s)
    (h : Inv s) : Inevitable step Goal s := by
  induction hn : μ s using Nat.strongRecOn generalizing s with
  | ind n ih =>
    by_cases hgoal : Goal s
    · exact .now hgoal
    · exact .later (hprogress s h hgoal) fun a s' hs => ih (μ s') (hn ▸ hless s a s' h hs) (hkeep s a s' h hs) rfl

/-- Some run does. -/
theorem exists_reach (h : Inevitable step Goal s) : ∃ s', Reach step Any s s' ∧ Goal s' := by
  suffices H : ∀ s₀, Reach step Any s₀ s → ∃ s', Reach step Any s₀ s' ∧ Goal s' from H s .init
  induction h with
  | now hgoal => exact fun s₀ hreach => ⟨_, hreach, hgoal⟩
  | later hnext _ ih =>
    intro s₀ hreach
    obtain ⟨a, s', hs⟩ := hnext
    exact ih a s' hs s₀ (hreach.step a trivial hs)

/-- What holds in every state that is reached may be added to the property. -/
theorem strengthen (h : Inevitable step Goal s) (hreach : ∀ s', Reach step Any s s' → Goal s' → Goal' s') :
    Inevitable step Goal' s := by
  suffices H : ∀ s₀, Reach step Any s₀ s → (∀ s', Reach step Any s₀ s' → Goal s' → Goal' s') → Inevitable step Goal' s from
    H s .init hreach
  clear hreach
  induction h with
  | now hgoal => exact fun s₀ hs hreach => .now (hreach _ hs hgoal)
  | later hnext _ ih => exact fun s₀ hs hreach => .later hnext fun a s' hstep => ih a s' hstep s₀ (hs.step a trivial hstep) hreach

end Inevitable

end Transition
