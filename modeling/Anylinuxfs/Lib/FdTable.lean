import Mathlib.Data.List.Basic
import Mathlib.Logic.Function.Basic

/-!
# The file descriptors of a process

What each descriptor refers to, and the calls of close(2), dup2(2), open(2) and pipe(2) on that. A new descriptor is always the
lowest one that is free. A call that fails changes nothing, so a failed call is `none`.
-/

namespace Posix

/-- What the descriptors refer to; of those below a limit as many are in use as there are files open. -/
abbrev FdTable (F : Type) := Nat → Option F

namespace FdTable

variable {F : Type}

/-- The lowest descriptor that is free, below the limit of the process. -/
def lowestFree (limit : Nat) (t : FdTable F) : Option Nat := (List.range limit).find? fun n => (t n).isNone

/-- A file is opened. -/
def openFile (limit : Nat) (file : F) (t : FdTable F) : Option (Nat × FdTable F) :=
  (t.lowestFree limit).map fun n => (n, Function.update t n (some file))

/-- pipe(2), with the read end first. -/
def pipe (limit : Nat) (readEnd writeEnd : F) (t : FdTable F) : Option ((Nat × Nat) × FdTable F) :=
  (t.openFile limit readEnd).bind fun r => (r.2.openFile limit writeEnd).map fun w => ((r.1, w.1), w.2)

/-- close(2). -/
def close (fd : Nat) (t : FdTable F) : Option (FdTable F) := (t fd).map fun _ => Function.update t fd none

/-- dup2(2). -/
def dup2 (fd target : Nat) (t : FdTable F) : Option (FdTable F) := (t fd).map fun file => Function.update t target (some file)

variable {limit n : Nat} {t t' : FdTable F}

theorem lowestFree_eq_some : t.lowestFree limit = some n ↔ n < limit ∧ t n = none ∧ ∀ m < n, t m ≠ none := by
  unfold lowestFree
  rw [List.find?_range_eq_some]
  simp [and_left_comm, Option.isSome_iff_ne_none]

theorem openFile_eq_some {file : F} :
    t.openFile limit file = some (n, t') ↔ t.lowestFree limit = some n ∧ t' = Function.update t n (some file) := by
  unfold openFile
  rw [Option.map_eq_some_iff]
  constructor
  · rintro ⟨m, hm, heq⟩
    cases heq
    exact ⟨hm, rfl⟩
  · rintro ⟨hn, rfl⟩
    exact ⟨n, hn, rfl⟩

theorem close_eq_some {fd : Nat} : t.close fd = some t' ↔ t fd ≠ none ∧ t' = Function.update t fd none := by
  cases h : t fd <;> simp [close, h, eq_comm]

theorem dup2_eq_some {fd target : Nat} :
    t.dup2 fd target = some t' ↔ ∃ file, t fd = some file ∧ t' = Function.update t target (some file) := by
  simp [dup2, eq_comm]

/-- The two ends of a pipe get the two lowest descriptors that are free. -/
theorem of_pipe {readEnd writeEnd : F} {ends : Nat × Nat} (h : t.pipe limit readEnd writeEnd = some (ends, t')) :
    ends.1 < ends.2 ∧ ends.2 < limit ∧ t ends.1 = none ∧ t ends.2 = none ∧ (∀ m < ends.2, m ≠ ends.1 → t m ≠ none) ∧
      t' = Function.update (Function.update t ends.1 (some readEnd)) ends.2 (some writeEnd) := by
  obtain ⟨⟨r, t₁⟩, hr, hrest⟩ := Option.bind_eq_some_iff.1 h
  obtain ⟨⟨w, t₂⟩, hw, heq⟩ := Option.map_eq_some_iff.1 hrest
  cases heq
  obtain ⟨hr', rfl⟩ := openFile_eq_some.1 hr
  obtain ⟨hw', rfl⟩ := openFile_eq_some.1 hw
  obtain ⟨-, hfree, hbelow⟩ := lowestFree_eq_some.1 hr'
  obtain ⟨hlimit, hfree', hbelow'⟩ := lowestFree_eq_some.1 hw'
  dsimp only at hfree' hbelow' hlimit ⊢
  have hne : w ≠ r := by
    rintro rfl
    rw [Function.update_self] at hfree'
    cases hfree'
  rw [Function.update_of_ne hne] at hfree'
  have hlt : r < w := Nat.lt_of_le_of_ne (Nat.le_of_not_lt fun hlt => hbelow w hlt hfree') hne.symm
  refine ⟨hlt, hlimit, hfree, hfree', fun m hm hmr => ?_, rfl⟩
  have hm' := hbelow' m hm
  rwa [Function.update_of_ne hmr] at hm'

/-- A file can be opened exactly if a descriptor is free. -/
theorem lowestFree_isSome : (t.lowestFree limit).isSome = true ↔ ∃ m < limit, t m = none := by
  unfold lowestFree
  rw [List.find?_isSome]
  simp

end FdTable

end Posix
