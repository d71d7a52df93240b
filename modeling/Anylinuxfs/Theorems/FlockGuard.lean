import Anylinuxfs.Lemmas.FlockGuard

/-!
# What a guard is worth

Over any number of processes and every interleaving of their operations. A guard is truthful, and an exclusive guard alone, in
every run that leaves the conversions undisturbed (`flockGuard_truthful`), and such a run is left at the first step that
disturbs one. Over all runs the statement is false (`flockGuard_truthful_false`): the revert of a drop goes through a moment in
which no lock is held, a second process takes the exclusive lock in that moment, and `drop` ignores the refusal that follows.
-/

namespace Anylinuxfs

open Flock Transition

namespace LockSys

variable {P : Type}

/-- An exclusive lock taken while another process is inside a conversion meets that process's live guard. -/
theorem LockInv.not_alone_of_granted {s : LockSys P} (h : LockInv s) {p q : P} (hq : q ≠ p) (hc : s.call q ≠ none)
    {s' : LockSys P} (hsame : s'.guards q = s.guards q) {g : FlockGuard} (hg : g ∈ s'.guards p)
    (hk : g.currentKind = .exclusive) : ¬ s'.ExclusiveAlone := by
  intro ha
  obtain ⟨x, hx, -⟩ := h.calling q hc
  have hnil := ha p q g hg hk hq
  rw [hsame, hx] at hnil
  cases hnil

variable [DecidableEq P]

/-- A request that no lock stands in the way of is granted. -/
theorem tryLock_granted {s : LockSys P} {p : P} {k : FlockKind} (hfree : ∀ e ∈ s.table, e.owner = p) :
    ∃ t, s.table.tryLock p () k = some t := by
  cases ht : s.table.tryLock p () k with
  | some t => exact ⟨t, rfl⟩
  | none =>
    obtain ⟨e, he, -, hne, -⟩ := Table.tryLock_eq_none_iff.1 ht
    exact absurd (hfree e he) hne

/-- An exclusive `acquire_lock` that keeps the guards truthful and alone disturbed no conversion. -/
theorem undisturbed_of_acquireLock {s : LockSys P} (h : LockInv s) {p : P}
    (halone : (s.acquireLock p .exclusive).ExclusiveAlone) : Undisturbed s (p, .acquireLock .exclusive) := by
  by_cases hfree : ∀ e ∈ s.table, e.owner = p
  · obtain ⟨t, ht⟩ := tryLock_granted (k := .exclusive) hfree
    refine Or.inr fun q hq => Classical.byContradiction fun hc => ?_
    refine h.not_alone_of_granted (p := p) hq hc ?_ (g := ⟨.exclusive, some .unlock⟩) ?_ rfl halone
    · simp only [acquireLock, flockNb, ht, Option.map_some, pushGuard]
      exact Function.update_of_ne hq _ _
    · simp [acquireLock, flockNb, ht, pushGuard]
  · obtain ⟨e, hn⟩ := Classical.not_forall.1 hfree
    obtain ⟨he, hne⟩ := Classical.not_imp.1 hn
    exact Or.inl ⟨e, he, hne⟩

/-- The second half of an upgrade that keeps the guards truthful and alone disturbed no conversion: refused, it leaves a shared
guard without a lock; granted while another process is inside a conversion, it leaves an exclusive guard that is not alone. -/
theorem undisturbed_of_upgradeFlock {s : LockSys P} (h : LockInv s) {p : P} (hc : s.call p = some .upgrade)
    (htrue : (s.upgradeFlock p).Truthful) (halone : (s.upgradeFlock p).ExclusiveAlone) :
    Undisturbed s (p, .upgradeFlock) := by
  obtain ⟨g, hg, -⟩ := h.calling p (by rw [hc]; simp)
  have hfree : ∀ e ∈ s.table, e.owner = p := by
    intro e he
    refine Classical.byContradiction fun hne => ?_
    have ht : s.table.tryLock p () .exclusive = none :=
      Table.tryLock_eq_none_iff.2 ⟨e, he, rfl, hne, by cases e.kind <;> rfl⟩
    have hs' : s.upgradeFlock p = s.setCall p none := by
      simp only [upgradeFlock, flockNb, ht, Option.map_none]
    rw [hs'] at htrue
    have hheld : s.Holds p g.currentKind := htrue p g [] hg (Function.update_self _ _ _)
    have hcall := (h.owned _ hheld).1
    rw [hc] at hcall
    cases hcall
  obtain ⟨t, ht⟩ := tryLock_granted (k := .exclusive) hfree
  refine ⟨hfree, fun q hq => Classical.byContradiction fun hcq => ?_⟩
  refine h.not_alone_of_granted (p := p) hq hcq ?_ (g := ⟨.exclusive, some .shared⟩) ?_ rfl halone
  · simp only [upgradeFlock, flockNb, ht, Option.map_some, pushGuard, setCall]
    exact Function.update_of_ne hq _ _
  · simp [upgradeFlock, flockNb, ht, pushGuard, setCall]

/-- Every state that undisturbed steps reach satisfies the invariant. -/
theorem lockInv_of_reach {s : LockSys P} (h : Reach step Undisturbed init s) : LockInv s :=
  h.invariant LockInv lockInv_init fun _ _ _ hi hu hs => lockInv_step hi hu hs

/-- In every run that disturbs no conversion, every live guard's kind is really held and an exclusive guard is alone; and the
first step that disturbs a conversion is the first after which this fails. -/
theorem flockGuard_truthful {s : LockSys P} (h : Reach step Undisturbed init s) :
    (s.Truthful ∧ s.ExclusiveAlone) ∧
      ∀ a s', s.step a = some s' → ((s'.Truthful ∧ s'.ExclusiveAlone) ↔ Undisturbed s a) := by
  have hi := lockInv_of_reach h
  refine ⟨⟨hi.truthful, hi.alone⟩, ?_⟩
  rintro ⟨p, op⟩ s' hs
  constructor
  · rintro ⟨htrue, halone⟩
    rcases step_cases hs with ⟨k, rfl, -, -, rfl⟩ | ⟨g, rest, rfl, -⟩ | ⟨rfl, hc, rfl⟩ | ⟨g, rest, rfl, -⟩ | ⟨rfl, -⟩
    · cases k with
      | shared => exact trivial
      | exclusive => exact undisturbed_of_acquireLock hi halone
    · exact trivial
    · exact undisturbed_of_upgradeFlock hi hc htrue halone
    · exact trivial
    · exact trivial
  · intro hu
    have hi' := lockInv_step hi hu hs
    exact ⟨hi'.truthful, hi'.alone⟩

/-- One process takes the shared lock and begins an upgrade; alone at the lock file, it disturbs nobody. -/
theorem flockGuard_truthful_upgrade : ∃ s : LockSys Bool,
    s.guards false = [⟨.exclusive, some .shared⟩, ⟨.shared, some .unlock⟩] ∧ s.Truthful ∧ s.ExclusiveAlone := by
  have h1 : Reach step Undisturbed (init : LockSys Bool) _ :=
    Reach.step (false, LockOp.acquireLock .shared) Reach.init trivial rfl
  have h2 := Reach.step (false, LockOp.upgrade) h1 trivial rfl
  have h3 := Reach.step (false, LockOp.upgradeFlock) h2 ⟨by decide, by decide⟩ rfl
  exact ⟨_, rfl, (flockGuard_truthful h3).1⟩

/-- A second process takes the exclusive lock while the first reverts its upgrade: the first goes on with a shared guard that
holds nothing, beside an exclusive guard of the second. -/
theorem flockGuard_truthful_false :
    ¬ ∀ s : LockSys Bool, Reach step Any init s → s.Truthful ∧ s.ExclusiveAlone := by
  intro h
  have hrun : Reach step Any (init : LockSys Bool) _ := reach_of_run (l :=
    [(false, .acquireLock .shared), (false, .upgrade), (false, .upgradeFlock), (false, .drop),
      (true, .acquireLock .exclusive), (false, .dropFlock)]) rfl
  have hnil := (h _ hrun).2 true false ⟨.exclusive, some .unlock⟩ (by decide) rfl (by decide)
  cases hnil

end LockSys

end Anylinuxfs
