import Anylinuxfs.FlockGuard

/-!
# The invariant of the lock file

`LockInv` is what every step keeps while no conversion is disturbed (`LockSys.Undisturbed`): the locks of the table are the
locks the innermost guards claim, the guards of a process nest, and an exclusive guard is alone. One lemma for each operation,
then `lockInv_step`.
-/

namespace Anylinuxfs

open Flock

namespace LockSys

variable {P : Type}

instance [DecidableEq P] (s : LockSys P) (p : P) (k : FlockKind) : Decidable (s.Holds p k) :=
  inferInstanceAs (Decidable ((⟨p, (), k⟩ : Entry P Unit) ∈ s.table.entries))

/-- The state in which a step begins leaves every conversion undisturbed. An exclusive `acquire_lock` that finds the lock free
comes while no other process is between the two halves of a conversion; the second half of an upgrade comes while no other
process is between such halves and none holds the lock. -/
def Undisturbed (s : LockSys P) (a : P × LockOp) : Prop :=
  match a.2 with
  | .acquireLock .exclusive => (∃ e ∈ s.table, e.owner ≠ a.1) ∨ ∀ q, q ≠ a.1 → s.call q = none
  | .upgradeFlock => (∀ e ∈ s.table, e.owner = a.1) ∧ ∀ q, q ≠ a.1 → s.call q = none
  | _ => True

/-! ## The stack of guards -/

/-- The stacks of guards that `acquire_lock`, `upgrade` and `drop` build: an outermost guard that releases the lock, and over it
no-op guards on exclusive ones and at most one guard that reverts to shared, on a shared one. -/
inductive Nested : List FlockGuard → Prop where
  | nil : Nested []
  | outermost (k : FlockKind) : Nested [⟨k, some .unlock⟩]
  | noop {g : FlockGuard} {rest : List FlockGuard} : Nested (g :: rest) → g.currentKind = .exclusive →
      Nested (⟨.exclusive, none⟩ :: g :: rest)
  | upgraded {g : FlockGuard} {rest : List FlockGuard} : Nested (g :: rest) → g.currentKind = .shared →
      Nested (⟨.exclusive, some .shared⟩ :: g :: rest)

/-- Only an outermost guard is shared. -/
theorem Nested.rest_of_shared {g : FlockGuard} {rest : List FlockGuard} (h : Nested (g :: rest))
    (hk : g.currentKind = .shared) : rest = [] := by
  cases h with
  | outermost k => rfl
  | noop _ _ => cases hk
  | upgraded _ _ => cases hk

/-- Over an exclusive guard every guard is exclusive. -/
theorem Nested.top_exclusive {g x : FlockGuard} {rest : List FlockGuard} (h : Nested (g :: rest)) (hx : x ∈ g :: rest)
    (hk : x.currentKind = .exclusive) : g.currentKind = .exclusive := by
  cases h with
  | outermost k =>
    rw [List.mem_singleton] at hx
    rw [← hx, hk]
  | noop _ _ => rfl
  | upgraded _ _ => rfl

/-! ## The invariant -/

/-- The locks held are those the innermost guards claim, and an exclusive guard is alone. -/
structure LockInv (s : LockSys P) : Prop where
  owned : ∀ e ∈ s.table, s.call e.owner = none ∧ ∃ g rest, s.guards e.owner = g :: rest ∧ g.currentKind = e.kind
  nested : ∀ p, Nested (s.guards p)
  calling : ∀ p, s.call p ≠ none → ∃ g, s.guards p = [g] ∧ g.currentKind = .shared
  truthful : s.Truthful
  alone : s.ExclusiveAlone

theorem lockInv_init : LockInv (init : LockSys P) where
  owned := by
    intro e he
    exact absurd he (Table.not_mem_empty e)
  nested := fun _ => Nested.nil
  calling := by
    intro p h
    exact absurd rfl h
  truthful := by
    intro p g rest h
    cases h
  alone := by
    intro p q g hg
    cases hg

/-- A process that has an exclusive guard holds the lock exclusively. -/
theorem LockInv.holds_exclusive {s : LockSys P} (h : LockInv s) {p : P} {g : FlockGuard} (hg : g ∈ s.guards p)
    (hk : g.currentKind = .exclusive) : s.Holds p .exclusive := by
  cases hgs : s.guards p with
  | nil =>
    rw [hgs] at hg
    cases hg
  | cons top rest =>
    have hn := h.nested p
    rw [hgs] at hn hg
    have htop := hn.top_exclusive hg hk
    have hcall : s.call p = none := by
      refine Classical.byContradiction fun hc => ?_
      obtain ⟨g', hg', hk'⟩ := h.calling p hc
      rw [hgs] at hg'
      cases hg'
      rw [hk'] at htop
      cases htop
    have := h.truthful p top rest hgs hcall
    rwa [htop] at this

/-- A process that has a guard and is not inside a conversion owns a lock of the table. -/
theorem LockInv.entry_of_guard {s : LockSys P} (h : LockInv s) {p : P} {g : FlockGuard} (hg : g ∈ s.guards p)
    (hc : s.call p = none) : ∃ e ∈ s.table, e.owner = p := by
  cases hgs : s.guards p with
  | nil =>
    rw [hgs] at hg
    cases hg
  | cons top rest => exact ⟨_, h.truthful p top rest hgs hc, rfl⟩

/-- A process whose innermost guard is exclusive leaves no guard to the others. -/
theorem LockInv.alone_of_top {s : LockSys P} (h : LockInv s) {p : P} {g : FlockGuard} {rest : List FlockGuard}
    (hg : s.guards p = g :: rest) (hk : g.currentKind = .exclusive) : ∀ q, q ≠ p → s.guards q = [] :=
  fun q hq => h.alone p q g (by rw [hg]; exact List.mem_cons_self) hk hq

/-- A step of `p` changes nothing of the other processes: the invariant is kept when the part of `p` is, and when no exclusive
guard of `p` or of another process meets a guard of the other. -/
theorem LockInv.of_local {s s' : LockSys P} (h : LockInv s) (p : P)
    (hguards : ∀ q, q ≠ p → s'.guards q = s.guards q) (hcall : ∀ q, q ≠ p → s'.call q = s.call q)
    (htable : ∀ e : Entry P Unit, e.owner ≠ p → (e ∈ s'.table ↔ e ∈ s.table))
    (howned : ∀ e ∈ s'.table, e.owner = p → s'.call p = none ∧ ∃ g rest, s'.guards p = g :: rest ∧ g.currentKind = e.kind)
    (hnested : Nested (s'.guards p))
    (hcalling : s'.call p ≠ none → ∃ g, s'.guards p = [g] ∧ g.currentKind = .shared)
    (htruthful : ∀ g rest, s'.guards p = g :: rest → s'.call p = none → s'.Holds p g.currentKind)
    (halone : ∀ g ∈ s'.guards p, g.currentKind = .exclusive → ∀ q, q ≠ p → s.guards q = [])
    (hothers : ∀ q, q ≠ p → ∀ g ∈ s.guards q, g.currentKind = .exclusive → s'.guards p = []) : LockInv s' := by
  refine ⟨?_, ?_, ?_, ?_, ?_⟩
  · intro e he
    by_cases hq : e.owner = p
    · simpa only [hq] using howned e he hq
    · simpa only [hguards _ hq, hcall _ hq] using h.owned e ((htable e hq).1 he)
  · intro q
    by_cases hq : q = p
    · simpa only [hq] using hnested
    · simpa only [hguards q hq] using h.nested q
  · intro q hcq
    by_cases hq : q = p
    · subst hq
      exact hcalling hcq
    · rw [hcall q hq] at hcq
      simpa only [hguards q hq] using h.calling q hcq
  · intro q g rest hgs hcq
    by_cases hq : q = p
    · subst hq
      exact htruthful g rest hgs hcq
    · rw [hguards q hq] at hgs
      rw [hcall q hq] at hcq
      exact (htable _ hq).2 (h.truthful q g rest hgs hcq)
  · intro a b g hga hk hba
    by_cases ha : a = p
    · subst ha
      rw [hguards b hba]
      exact halone g hga hk b hba
    · rw [hguards a ha] at hga
      by_cases hb : b = p
      · subst hb
        exact hothers a ha g hga hk
      · rw [hguards b hb]
        exact h.alone a b g hga hk hba

/-! ## One lemma for each operation -/

variable [DecidableEq P]

/-- When the exclusive lock was granted to `p` and no other process is inside a conversion, no other process has a guard. -/
theorem LockInv.others_empty {s : LockSys P} {t : Table P Unit} (h : LockInv s) {p q : P}
    (ht : s.table.tryLock p () .exclusive = some t) (hcalls : ∀ q, q ≠ p → s.call q = none) (hq : q ≠ p) :
    s.guards q = [] := by
  cases hgs : s.guards q with
  | nil => rfl
  | cons g rest =>
    obtain ⟨e, he, heq⟩ := h.entry_of_guard (by rw [hgs]; exact List.mem_cons_self) (hcalls q hq)
    exact absurd (heq ▸ Table.no_other_of_tryLock_exclusive ht he rfl) hq

/-- No other process has an exclusive guard when a lock was granted to `p`. -/
theorem LockInv.no_exclusive {s : LockSys P} {t : Table P Unit} (h : LockInv s) {p q : P} {k : FlockKind}
    (ht : s.table.tryLock p () k = some t) (hq : q ≠ p) : ∀ g ∈ s.guards q, g.currentKind ≠ .exclusive := by
  intro g hg hk
  have hh := h.holds_exclusive hg hk
  cases k with
  | shared =>
    have := Table.shared_of_tryLock_shared ht hh rfl hq
    cases this
  | exclusive => exact hq (Table.no_other_of_tryLock_exclusive ht hh rfl)

/-- A granted request changes no lock of another process. -/
theorem tryLock_other {s : LockSys P} {t : Table P Unit} {p : P} {k : FlockKind} (ht : s.table.tryLock p () k = some t)
    (e : Entry P Unit) (hne : e.owner ≠ p) : e ∈ t ↔ e ∈ s.table := by
  rw [Table.mem_of_tryLock ht]
  constructor
  · rintro (rfl | ⟨he, -⟩)
    · exact absurd rfl hne
    · exact he
  · exact fun he => Or.inr ⟨he, hne⟩

/-- After a granted request the process holds the lock it asked for and no other. -/
theorem tryLock_own {s : LockSys P} {t : Table P Unit} {p : P} {k : FlockKind} (ht : s.table.tryLock p () k = some t)
    {e : Entry P Unit} (he : e ∈ t) (hp : e.owner = p) : e.kind = k := by
  rcases (Table.mem_of_tryLock ht).1 he with rfl | ⟨-, hne⟩
  · rfl
  · exact absurd hp hne

theorem lockInv_acquireLock {s : LockSys P} (h : LockInv s) {p : P} {k : FlockKind} (hc : s.call p = none)
    (hg : s.guards p = []) (hu : Undisturbed s (p, .acquireLock k)) : LockInv (s.acquireLock p k) := by
  unfold acquireLock flockNb
  cases ht : s.table.tryLock p () k with
  | none => exact h
  | some t =>
    have hgp : Function.update s.guards p (⟨k, some .unlock⟩ :: s.guards p) p = [⟨k, some .unlock⟩] := by
      rw [Function.update_self, hg]
    simp only [Option.map_some, pushGuard]
    refine h.of_local p (fun q hq => Function.update_of_ne hq _ _) (fun _ _ => rfl) (tryLock_other ht) ?_ ?_ ?_ ?_ ?_ ?_
    · intro e he hp
      exact ⟨hc, _, [], hgp, (tryLock_own ht he hp).symm⟩
    · simp only [hgp]
      exact Nested.outermost k
    · exact fun hcp => absurd hc hcp
    · intro g rest hgs _
      simp only [hgp, List.cons.injEq] at hgs
      obtain ⟨rfl, -⟩ := hgs
      exact (Table.mem_of_tryLock ht).2 (Or.inl rfl)
    · intro g hgm hk q hq
      simp only [hgp, List.mem_singleton] at hgm
      subst hgm
      cases hk
      rcases hu with ⟨e, he, hne⟩ | hcalls
      · exact absurd (Table.no_other_of_tryLock_exclusive ht he rfl) hne
      · exact h.others_empty ht hcalls hq
    · intro q hq g hgm hk
      exact absurd hk (h.no_exclusive ht hq g hgm)

theorem lockInv_upgrade {s : LockSys P} (h : LockInv s) {p : P} {g : FlockGuard} {rest : List FlockGuard}
    (hc : s.call p = none) (hg : s.guards p = g :: rest) : LockInv (s.upgrade p g) := by
  have hn := h.nested p
  rw [hg] at hn
  unfold upgrade
  split
  · rename_i hk
    have hgp : Function.update s.guards p (⟨.exclusive, none⟩ :: s.guards p) p = ⟨.exclusive, none⟩ :: g :: rest := by
      rw [Function.update_self, hg]
    simp only [pushGuard]
    refine h.of_local p (fun q hq => Function.update_of_ne hq _ _) (fun _ _ => rfl) (fun _ _ => Iff.rfl) ?_ ?_ ?_ ?_ ?_ ?_
    · intro e he hp
      obtain ⟨-, g', rest', hgs, hk'⟩ := h.owned e he
      rw [hp, hg, List.cons.injEq] at hgs
      exact ⟨hc, _, _, hgp, by rw [← hk', ← hgs.1, hk]⟩
    · simp only [hgp]
      exact Nested.noop hn hk
    · exact fun hcp => absurd hc hcp
    · intro g' rest' hgs _
      simp only [hgp, List.cons.injEq] at hgs
      obtain ⟨rfl, -⟩ := hgs
      have := h.truthful p g rest hg hc
      rwa [hk] at this
    · intro _ _ _ q hq
      exact h.alone_of_top hg hk q hq
    · intro q hq g' hgm
      rw [h.alone_of_top hg hk q hq] at hgm
      cases hgm
  · rename_i hk
    have hsh : g.currentKind = .shared := by
      cases hkk : g.currentKind with
      | shared => rfl
      | exclusive => exact absurd hkk hk
    have hg' : s.guards p = [g] := by rw [hg, hn.rest_of_shared hsh]
    simp only [unlock, setCall]
    refine h.of_local p (fun _ _ => rfl) (fun q hq => Function.update_of_ne hq _ _) ?_ ?_ (h.nested p) ?_ ?_ ?_ ?_
    · intro e hne
      simp [hne]
    · intro e he hp
      exact absurd hp (Table.mem_unlock.1 he).2
    · exact fun _ => ⟨g, hg', hsh⟩
    · intro g' rest' _ hcp
      simp at hcp
    · intro g' hgm hk' q hq
      exact h.alone p q g' hgm hk' hq
    · intro q hq g' hgm hk'
      exact h.alone q p g' hgm hk' (Ne.symm hq)

theorem lockInv_upgradeFlock {s : LockSys P} (h : LockInv s) {p : P} (hc : s.call p = some .upgrade)
    (hu : Undisturbed s (p, .upgradeFlock)) : LockInv (s.upgradeFlock p) := by
  obtain ⟨hfree, hcalls⟩ := hu
  unfold upgradeFlock flockNb
  cases ht : s.table.tryLock p () .exclusive with
  | none =>
    obtain ⟨e, he, -, hne, -⟩ := Table.tryLock_eq_none_iff.1 ht
    exact absurd (hfree e he) hne
  | some t =>
    obtain ⟨g, hg, hk⟩ := h.calling p (by rw [hc]; simp)
    have hn := h.nested p
    rw [hg] at hn
    have hothers : ∀ q, q ≠ p → s.guards q = [] := fun q hq => h.others_empty ht hcalls hq
    have hgp : Function.update s.guards p (⟨.exclusive, some .shared⟩ :: s.guards p) p =
        [⟨.exclusive, some .shared⟩, g] := by
      rw [Function.update_self, hg]
    simp only [Option.map_some, pushGuard, setCall]
    refine h.of_local p (fun q hq => Function.update_of_ne hq _ _) (fun q hq => Function.update_of_ne hq _ _)
      (tryLock_other ht) ?_ ?_ ?_ ?_ ?_ ?_
    · intro e he hp
      exact ⟨Function.update_self _ _ _, _, [g], hgp, (tryLock_own ht he hp).symm⟩
    · simp only [hgp]
      exact Nested.upgraded hn hk
    · intro hcp
      exact absurd (Function.update_self _ _ _) hcp
    · intro g' rest' hgs _
      simp only [hgp, List.cons.injEq] at hgs
      obtain ⟨rfl, -⟩ := hgs
      exact (Table.mem_of_tryLock ht).2 (Or.inl rfl)
    · exact fun _ _ _ q hq => hothers q hq
    · intro q hq g' hgm
      rw [hothers q hq] at hgm
      cases hgm

theorem lockInv_dropGuard {s : LockSys P} (h : LockInv s) {p : P} {g : FlockGuard} {rest : List FlockGuard}
    (hc : s.call p = none) (hg : s.guards p = g :: rest) : LockInv (s.dropGuard p g rest) := by
  have hn := h.nested p
  rw [hg] at hn
  have hgp : Function.update s.guards p rest p = rest := Function.update_self _ _ _
  -- the guards that stay were live before the drop, so what is known of them stays known
  have halone : ∀ x ∈ rest, x.currentKind = .exclusive → ∀ q, q ≠ p → s.guards q = [] :=
    fun x hx hk q hq => h.alone p q x (by rw [hg]; exact List.mem_cons_of_mem g hx) hk hq
  have hothers : ∀ q, q ≠ p → ∀ x ∈ s.guards q, x.currentKind = .exclusive → rest = [] := by
    intro q hq x hx hk
    have := h.alone q p x hx hk (Ne.symm hq)
    rw [hg] at this
    cases this
  unfold dropGuard
  cases hn with
  | outermost k =>
    simp only [unlock]
    refine h.of_local p (fun q hq => Function.update_of_ne hq _ _) (fun _ _ => rfl) ?_ ?_ ?_ ?_ ?_ ?_ ?_
    · intro e hne
      simp [hne]
    · intro e he hp
      exact absurd hp (Table.mem_unlock.1 he).2
    · simp only [hgp]
      exact Nested.nil
    · exact fun hcp => absurd hc hcp
    · intro x r hgs
      simp only [hgp] at hgs
      cases hgs
    · simpa only [hgp] using halone
    · simpa only [hgp] using hothers
  | @noop g' rest' hn' hk =>
    refine h.of_local p (fun q hq => Function.update_of_ne hq _ _) (fun _ _ => rfl) (fun _ _ => Iff.rfl) ?_ ?_ ?_ ?_ ?_ ?_
    · intro e he hp
      obtain ⟨-, x, r, hgs, hkx⟩ := h.owned e he
      rw [hp, hg, List.cons.injEq] at hgs
      exact ⟨hc, g', rest', hgp, by rw [hk, ← hkx, ← hgs.1]⟩
    · simp only [hgp]
      exact hn'
    · exact fun hcp => absurd hc hcp
    · intro x r hgs _
      simp only [hgp, List.cons.injEq] at hgs
      obtain ⟨rfl, -⟩ := hgs
      have := h.truthful p _ _ hg hc
      rwa [← hk] at this
    · simpa only [hgp] using halone
    · simpa only [hgp] using hothers
  | @upgraded g' rest' hn' hk =>
    simp only [unlock, setCall]
    refine h.of_local p (fun q hq => Function.update_of_ne hq _ _) (fun q hq => Function.update_of_ne hq _ _)
      ?_ ?_ ?_ ?_ ?_ ?_ ?_
    · intro e hne
      simp [hne]
    · intro e he hp
      exact absurd hp (Table.mem_unlock.1 he).2
    · simp only [hgp]
      exact hn'
    · exact fun _ => ⟨g', hgp.trans (by rw [hn'.rest_of_shared hk]), hk⟩
    · intro x r _ hcp
      simp at hcp
    · simpa only [hgp] using halone
    · simpa only [hgp] using hothers

/-- The second half of a revert is granted: the process's outer guard is live, so no other process has an exclusive one. -/
theorem LockInv.revert_granted {s : LockSys P} (h : LockInv s) {p : P} (hc : s.call p = some .revert) :
    ∃ t, s.table.tryLock p () .shared = some t := by
  cases ht : s.table.tryLock p () .shared with
  | some t => exact ⟨t, rfl⟩
  | none =>
    obtain ⟨e, he, -, hne, hk⟩ := Table.tryLock_eq_none_iff.1 ht
    obtain ⟨-, x, r, hgs, hkx⟩ := h.owned e he
    have hex : x.currentKind = .exclusive := by
      rw [hkx]
      cases hke : e.kind with
      | exclusive => rfl
      | shared =>
        rw [hke] at hk
        cases hk
    obtain ⟨g, hg, -⟩ := h.calling p (by rw [hc]; simp)
    have := h.alone_of_top hgs hex p (Ne.symm hne)
    rw [hg] at this
    cases this

theorem lockInv_dropFlock {s : LockSys P} (h : LockInv s) {p : P} (hc : s.call p = some .revert) :
    LockInv (s.dropFlock p) := by
  obtain ⟨t, ht⟩ := h.revert_granted hc
  obtain ⟨g, hg, hk⟩ := h.calling p (by rw [hc]; simp)
  simp only [dropFlock, flockNb, ht, Option.map_some, setCall]
  refine h.of_local p (fun _ _ => rfl) (fun q hq => Function.update_of_ne hq _ _) (tryLock_other ht) ?_ (h.nested p)
    ?_ ?_ ?_ ?_
  · intro e he hp
    exact ⟨Function.update_self _ _ _, g, [], hg, by rw [hk, tryLock_own ht he hp]⟩
  · intro hcp
    exact absurd (Function.update_self _ _ _) hcp
  · intro x r hgs _
    rw [hg, List.cons.injEq] at hgs
    obtain ⟨rfl, -⟩ := hgs
    rw [Holds, hk]
    exact (Table.mem_of_tryLock ht).2 (Or.inl rfl)
  · intro x hx hkx q hq
    exact h.alone p q x hx hkx hq
  · intro q hq x hx hkx
    exact h.alone q p x hx hkx (Ne.symm hq)

/-! ## One step -/

/-- What a step of a process is: the operation, and the state of the process in which it is enabled. -/
theorem step_cases {s s' : LockSys P} {a : P × LockOp} (h : s.step a = some s') :
    (∃ k, a.2 = .acquireLock k ∧ s.call a.1 = none ∧ s.guards a.1 = [] ∧ s' = s.acquireLock a.1 k) ∨
    (∃ g rest, a.2 = .upgrade ∧ s.call a.1 = none ∧ s.guards a.1 = g :: rest ∧ s' = s.upgrade a.1 g) ∨
    (a.2 = .upgradeFlock ∧ s.call a.1 = some .upgrade ∧ s' = s.upgradeFlock a.1) ∨
    (∃ g rest, a.2 = .drop ∧ s.call a.1 = none ∧ s.guards a.1 = g :: rest ∧ s' = s.dropGuard a.1 g rest) ∨
    (a.2 = .dropFlock ∧ s.call a.1 = some .revert ∧ s' = s.dropFlock a.1) := by
  unfold step at h
  split at h
  · rename_i k h1 h2 h3
    exact Or.inl ⟨k, h1, h2, h3, (Option.some.inj h).symm⟩
  · rename_i g rest h1 h2 h3
    exact Or.inr (Or.inl ⟨g, rest, h1, h2, h3, (Option.some.inj h).symm⟩)
  · rename_i h1 h2
    exact Or.inr (Or.inr (Or.inl ⟨h1, h2, (Option.some.inj h).symm⟩))
  · rename_i g rest h1 h2 h3
    exact Or.inr (Or.inr (Or.inr (Or.inl ⟨g, rest, h1, h2, h3, (Option.some.inj h).symm⟩)))
  · rename_i h1 h2
    exact Or.inr (Or.inr (Or.inr (Or.inr ⟨h1, h2, (Option.some.inj h).symm⟩)))
  · cases h

/-- A step that disturbs no conversion keeps the invariant. -/
theorem lockInv_step {s s' : LockSys P} {a : P × LockOp} (h : LockInv s) (hu : Undisturbed s a)
    (hs : s.step a = some s') : LockInv s' := by
  obtain ⟨p, op⟩ := a
  rcases step_cases hs with ⟨k, rfl, hc, hg, rfl⟩ | ⟨g, rest, rfl, hc, hg, rfl⟩ | ⟨rfl, hc, rfl⟩ |
    ⟨g, rest, rfl, hc, hg, rfl⟩ | ⟨rfl, hc, rfl⟩
  · exact lockInv_acquireLock h hc hg hu
  · exact lockInv_upgrade h hc hg
  · exact lockInv_upgradeFlock h hc hu
  · exact lockInv_dropGuard h hc hg
  · exact lockInv_dropFlock h hc

end LockSys

end Anylinuxfs
