import Mathlib.Data.List.Basic

/-!
# Advisory whole-file locks

The locks of flock(2). A lock belongs to an open file description, not to a process, so the owners of the table are open file
descriptions; two locks on one file are compatible only when both are shared. A non-blocking call on a description that holds
no lock is one atomic attempt (`tryLock`). A conversion is not atomic: the old lock is dropped first (`unlock`), then the new
one is tried, and a conversion that fails leaves no lock; a caller models it as the two calls with other steps in between.
-/

namespace Flock

/-- The two modes of a lock. -/
inductive Kind where
  | shared | exclusive
  deriving DecidableEq, Repr

/-- Two locks on one file may be held by two descriptions only when both are shared. -/
def Kind.compatible : Kind → Kind → Bool
  | .shared, .shared => true
  | _, _ => false

@[simp] theorem Kind.compatible_iff (k k' : Kind) : k.compatible k' = true ↔ k = .shared ∧ k' = .shared := by
  cases k <;> cases k' <;> simp [Kind.compatible]

/-- One lock: the description that holds it, the file it is on, and its mode. -/
structure Entry (ι ρ : Type) where
  owner : ι
  file : ρ
  kind : Kind
  deriving DecidableEq, Repr

/-- The locks held at one moment. A description holds at most one lock, and two descriptions hold locks on one file only
when the modes are compatible. -/
structure Table (ι ρ : Type) where
  entries : List (Entry ι ρ)
  unique : ∀ e ∈ entries, ∀ f ∈ entries, e.owner = f.owner → e = f
  consistent : ∀ e ∈ entries, ∀ f ∈ entries, e.file = f.file → e.owner ≠ f.owner → e.kind.compatible f.kind = true

variable {ι ρ : Type}

namespace Table

/-- No lock is held. -/
def empty : Table ι ρ where
  entries := []
  unique := by simp
  consistent := by simp

instance : Membership (Entry ι ρ) (Table ι ρ) := ⟨fun t e => e ∈ t.entries⟩

theorem mem_iff {t : Table ι ρ} {e : Entry ι ρ} : e ∈ t ↔ e ∈ t.entries := Iff.rfl

@[simp] theorem not_mem_empty (e : Entry ι ρ) : e ∉ (empty : Table ι ρ) := by
  simp [mem_iff, empty]

/-- The holder of an exclusive lock is the only description that holds a lock on the file. -/
theorem exclusive_alone (t : Table ι ρ) {e f : Entry ι ρ} (he : e ∈ t) (hf : f ∈ t) (hfile : e.file = f.file)
    (hk : e.kind = .exclusive) : e.owner = f.owner := by
  refine Classical.byContradiction fun hne => ?_
  have hc := (Kind.compatible_iff _ _).1 (t.consistent e he f hf hfile hne)
  rw [hk] at hc
  cases hc.1

/-- Only the locks of some descriptions are kept. -/
def retain (t : Table ι ρ) (keep : ι → Bool) : Table ι ρ where
  entries := t.entries.filter (fun e => keep e.owner)
  unique := by
    intro e he f hf
    exact t.unique e (List.mem_filter.1 he).1 f (List.mem_filter.1 hf).1
  consistent := by
    intro e he f hf
    exact t.consistent e (List.mem_filter.1 he).1 f (List.mem_filter.1 hf).1

@[simp] theorem mem_retain {t : Table ι ρ} {keep : ι → Bool} {e : Entry ι ρ} :
    e ∈ t.retain keep ↔ e ∈ t ∧ keep e.owner = true := by
  simp [mem_iff, retain]

variable [DecidableEq ι]

/-- The lock of a description is dropped: `flock(fd, LOCK_UN)`, the last close of its descriptors, or the first half of a
conversion. -/
def unlock (t : Table ι ρ) (o : ι) : Table ι ρ := t.retain (fun owner => decide (owner ≠ o))

@[simp] theorem mem_unlock {t : Table ι ρ} {o : ι} {e : Entry ι ρ} : e ∈ t.unlock o ↔ e ∈ t ∧ e.owner ≠ o := by
  simp [unlock]

/-- The mode of the lock that the description holds. -/
def heldBy (t : Table ι ρ) (o : ι) : Option Kind := (t.entries.find? (fun e => decide (e.owner = o))).map Entry.kind

theorem heldBy_eq_some_iff {t : Table ι ρ} {o : ι} {k : Kind} : t.heldBy o = some k ↔ ∃ r, ⟨o, r, k⟩ ∈ t := by
  unfold heldBy
  constructor
  · intro h
    obtain ⟨e, he, hk⟩ := Option.map_eq_some_iff.1 h
    have howner : e.owner = o := by simpa using List.find?_some he
    subst howner hk
    exact ⟨e.file, List.mem_of_find?_eq_some he⟩
  · rintro ⟨r, hr⟩
    cases hfind : t.entries.find? (fun e => decide (e.owner = o)) with
    | none => exact absurd (decide_eq_true rfl) (List.find?_eq_none.1 hfind _ hr)
    | some e =>
      have howner : e.owner = o := by simpa using List.find?_some hfind
      rw [t.unique e (List.mem_of_find?_eq_some hfind) _ hr howner]
      rfl

theorem heldBy_eq_of_mem_iff {t t' : Table ι ρ} {o : ι} (h : ∀ r k, ⟨o, r, k⟩ ∈ t' ↔ ⟨o, r, k⟩ ∈ t) :
    t'.heldBy o = t.heldBy o := by
  refine Option.ext fun k => ?_
  rw [heldBy_eq_some_iff, heldBy_eq_some_iff]
  exact exists_congr fun r => h r k

@[simp] theorem heldBy_unlock_self (t : Table ι ρ) (o : ι) : (t.unlock o).heldBy o = none := by
  refine Option.eq_none_iff_forall_ne_some.2 fun k hk => ?_
  obtain ⟨r, hr⟩ := heldBy_eq_some_iff.1 hk
  exact (mem_unlock.1 hr).2 rfl

@[simp] theorem heldBy_unlock_of_ne (t : Table ι ρ) {o o' : ι} (h : o' ≠ o) : (t.unlock o).heldBy o' = t.heldBy o' :=
  heldBy_eq_of_mem_iff fun _ _ => ⟨fun he => (mem_unlock.1 he).1, fun he => mem_unlock.2 ⟨he, h⟩⟩

variable [DecidableEq ρ]

/-- The locks that stand in the way of a request: locks of other descriptions on the same file of an incompatible mode. -/
def blockers (t : Table ι ρ) (o : ι) (r : ρ) (k : Kind) : List (Entry ι ρ) :=
  t.entries.filter (fun e => decide (e.file = r ∧ e.owner ≠ o ∧ e.kind.compatible k = false))

theorem mem_blockers {t : Table ι ρ} {o : ι} {r : ρ} {k : Kind} {e : Entry ι ρ} :
    e ∈ t.blockers o r k ↔ e ∈ t ∧ e.file = r ∧ e.owner ≠ o ∧ e.kind.compatible k = false := by
  simp [blockers, mem_iff]

/-- A non-blocking request: it is granted when nothing stands in its way, and replaces the description's own lock. -/
def tryLock (t : Table ι ρ) (o : ι) (r : ρ) (k : Kind) : Option (Table ι ρ) :=
  if h : t.blockers o r k = [] then
    some {
      entries := ⟨o, r, k⟩ :: (t.unlock o).entries
      unique := by
        intro e he f hf hef
        rcases List.mem_cons.1 he with rfl | he
        · rcases List.mem_cons.1 hf with rfl | hf
          · rfl
          · exact absurd hef.symm (mem_unlock.1 hf).2
        · rcases List.mem_cons.1 hf with rfl | hf
          · exact absurd hef (mem_unlock.1 he).2
          · exact (t.unlock o).unique e he f hf hef
      consistent := by
        have hfree : ∀ e ∈ t.unlock o, e.file = r → e.kind.compatible k = true := by
          intro e he hr
          refine Classical.byContradiction fun hn => ?_
          have hm : e ∈ t.blockers o r k :=
            mem_blockers.2 ⟨(mem_unlock.1 he).1, hr, (mem_unlock.1 he).2, eq_false_of_ne_true hn⟩
          rw [h] at hm
          cases hm
        intro e he f hf hfile hne
        rcases List.mem_cons.1 he with rfl | he
        · rcases List.mem_cons.1 hf with rfl | hf
          · exact absurd rfl hne
          · have hc := (Kind.compatible_iff _ _).1 (hfree f hf hfile.symm)
            exact (Kind.compatible_iff _ _).2 ⟨hc.2, hc.1⟩
        · rcases List.mem_cons.1 hf with rfl | hf
          · exact hfree e he hfile
          · exact (t.unlock o).consistent e he f hf hfile hne }
  else none

/-- A granted request leaves the requested lock and every lock of another description. -/
theorem mem_of_tryLock {t t' : Table ι ρ} {o : ι} {r : ρ} {k : Kind} (h : t.tryLock o r k = some t')
    {e : Entry ι ρ} : e ∈ t' ↔ e = ⟨o, r, k⟩ ∨ (e ∈ t ∧ e.owner ≠ o) := by
  unfold tryLock at h
  split at h
  · cases h
    simp only [mem_iff, List.mem_cons]
    rw [← mem_iff, mem_unlock, mem_iff]
  · cases h

/-- A request is refused exactly when another description holds an incompatible lock on the file. -/
theorem tryLock_eq_none_iff {t : Table ι ρ} {o : ι} {r : ρ} {k : Kind} :
    t.tryLock o r k = none ↔ ∃ e ∈ t, e.file = r ∧ e.owner ≠ o ∧ e.kind.compatible k = false := by
  unfold tryLock
  constructor
  · intro h
    split at h
    · cases h
    · rename_i hb
      obtain ⟨e, he⟩ := List.exists_mem_of_ne_nil _ hb
      exact ⟨e, (mem_blockers.1 he).1, (mem_blockers.1 he).2⟩
  · rintro ⟨e, he, hr⟩
    have hb : t.blockers o r k ≠ [] := List.ne_nil_of_mem (mem_blockers.2 ⟨he, hr⟩)
    simp [hb]

/-- An exclusive request is granted only when no other description holds a lock on the file. -/
theorem no_other_of_tryLock_exclusive {t t' : Table ι ρ} {o : ι} {r : ρ} (h : t.tryLock o r .exclusive = some t')
    {e : Entry ι ρ} (he : e ∈ t) (hr : e.file = r) : e.owner = o := by
  refine Classical.byContradiction fun hne => ?_
  have hn : t.tryLock o r .exclusive = none :=
    tryLock_eq_none_iff.2 ⟨e, he, hr, hne, by cases e.kind <;> rfl⟩
  rw [h] at hn
  cases hn

/-- A shared request is granted only when no other description holds the file exclusively. -/
theorem shared_of_tryLock_shared {t t' : Table ι ρ} {o : ι} {r : ρ} (h : t.tryLock o r .shared = some t')
    {e : Entry ι ρ} (he : e ∈ t) (hr : e.file = r) (hne : e.owner ≠ o) : e.kind = .shared := by
  cases hk : e.kind with
  | shared => rfl
  | exclusive =>
    have hn : t.tryLock o r .shared = none := tryLock_eq_none_iff.2 ⟨e, he, hr, hne, by rw [hk]; rfl⟩
    rw [h] at hn
    cases hn

theorem heldBy_tryLock_self {t t' : Table ι ρ} {o : ι} {r : ρ} {k : Kind} (h : t.tryLock o r k = some t') :
    t'.heldBy o = some k :=
  heldBy_eq_some_iff.2 ⟨r, (mem_of_tryLock h).2 (Or.inl rfl)⟩

theorem heldBy_tryLock_of_ne {t t' : Table ι ρ} {o o' : ι} {r : ρ} {k : Kind} (h : t.tryLock o r k = some t') (hne : o' ≠ o) :
    t'.heldBy o' = t.heldBy o' := by
  refine heldBy_eq_of_mem_iff fun r' k' => ?_
  rw [mem_of_tryLock h]
  constructor
  · rintro (he | he)
    · cases he
      exact absurd rfl hne
    · exact he.1
  · exact fun he => Or.inr ⟨he, hne⟩

end Table

end Flock
