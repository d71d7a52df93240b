import Anylinuxfs.ExitStatus

/-!
# What the exit code of `anylinuxfs mount` says about the VM

The child ends with the raw wait status of the VM where an exit code belongs, and an exit code is one byte: the nonzero exit
code of the VM is lost whole (`propagates_false`). `propagates_iff` is the exact condition under which the command tells its
caller what the VM told it.
-/

namespace Anylinuxfs

open Posix

namespace MountRun

/-- The exit code the VM reported over the console, zero when it reported none. -/
def reported (r : MountRun) : Int :=
  match r.nfsStatus with
  | .failed (some c) => c
  | _ => 0

/-- The child ends with an error other than the VM's status: a step failed, or the failure of the VM could not be announced. -/
def EndsOtherwise (r : MountRun) : Prop := r.failedStep = true ∨ (r.joinWritten = false ∧ ¬r.VmSucceeded)

/-- The condition under which the exit code is right. The child ends with the VM's status, the VM did not exit with a nonzero
code, and what it reported is zero or no multiple of 256; or the child ends with another error, for which it exits with one,
while the VM failed too, and with the code one if it exited at all with a nonzero code. -/
def StatusKept (r : MountRun) : Prop :=
  (¬r.EndsOtherwise ∧ (∀ c h, r.vmStatus = .exited c h → c = 0 ∧ (r.reported = 0 ∨ r.reported % 256 ≠ 0))) ∨
    (r.EndsOtherwise ∧ ¬r.VmSucceeded ∧ ∀ c h, r.vmStatus = .exited c h → c ≤ 1)

/-! ## The two processes -/

theorem vmSucceeded_iff (r : MountRun) : r.VmSucceeded ↔ r.vmStatus.raw = 0 ∧ r.reported = 0 := by
  unfold VmSucceeded reported
  cases r.nfsStatus with
  | ready state => simp
  | failed code => cases code <;> simp

/-- The number with which the child reports the VM: its raw status, or what it reported when that is zero. -/
def vmNumber (r : MountRun) : Int := if r.vmStatus.raw = 0 then r.reported else r.vmStatus.raw

theorem vmNumber_eq_zero_iff (r : MountRun) : r.vmNumber = 0 ↔ r.VmSucceeded := by
  rw [vmSucceeded_iff, vmNumber]
  by_cases h : r.vmStatus.raw = 0 <;> simp [h]

theorem runMountChild_eq (r : MountRun) : r.runMountChild =
    if r.failedStep then .error .other else if r.vmNumber = 0 then .ok () else .error (.statusError r.vmNumber) := by
  obtain ⟨vm, nfs, failed, lines, joined⟩ := r
  cases failed with
  | true => rfl
  | false =>
    simp only [runMountChild, waitForVmStatus, bind, Except.bind, vmNumber, reported]
    by_cases h0 : vm.raw = 0
    · rcases nfs with state | ⟨none | c⟩
      · simp [h0, pure, Except.pure]
      · simp [h0, pure, Except.pure]
      · by_cases hc : c = 0 <;> simp [h0, hc, pure, Except.pure, throw, throwThe, MonadExceptOf.throw]
    · simp [h0, throw, throwThe, MonadExceptOf.throw]

/-- A process ends with what `run` returned; an end without `process::exit` is an exit with zero. -/
theorem main_eq (isChild : Bool) (res : Except AppError Unit) : main isChild res = .ofExit (run isChild res) := by
  unfold main
  by_cases h : run isChild res = 0 <;> simp [h]

/-- What the child exits with: one for an error of its own, the VM's number otherwise. -/
theorem run_runMount (r : MountRun) :
    (r.EndsOtherwise → run true r.runMount = 1) ∧ (¬r.EndsOtherwise → run true r.runMount = r.vmNumber) := by
  have h0 := vmNumber_eq_zero_iff r
  unfold runMount EndsOtherwise
  rw [runMountChild_eq]
  by_cases hf : r.failedStep = true
  · simp [hf, run]
  · by_cases hs : r.vmNumber = 0
    · simp [hf, hs, run, h0.1 hs]
    · have hn : ¬r.VmSucceeded := fun h => hs (h0.2 h)
      cases hj : r.joinWritten <;> simp [hf, hs, hn, run]

/-- A child that never wrote `detach` is waited for. -/
theorem runMountParent_eq_join {lines : List String} (h : "detach" ∉ lines) (waited : Except Int WaitStatus) :
    runMountParent lines waited = runMountParent.join waited := by
  induction lines with
  | nil => rfl
  | cons cmd rest ih =>
    have hcmd : cmd ≠ "detach" := fun hc => h (hc ▸ List.mem_cons_self)
    have hrest : "detach" ∉ rest := fun hr => h (List.mem_cons_of_mem _ hr)
    simp only [runMountParent, hcmd, if_false]
    split
    · rfl
    · exact ih hrest

theorem detach_not_mem_pipeLines {r : MountRun} (h : "detach" ∉ r.lines) : "detach" ∉ r.pipeLines := by
  unfold pipeLines
  split
  · split
    · simpa using h
    · exact h
  · exact h

/-- The parent converts the status of a child that exited back to the child's code. -/
theorem run_join (code : Nat) (hlt : code < 256) : exitByte (run false (runMountParent.join (.ok (.exited code hlt)))) = code := by
  by_cases h0 : code = 0
  · subst h0
    rfl
  · have hraw : (WaitStatus.exited code hlt).raw ≠ 0 := by
      simp only [WaitStatus.raw]
      omega
    simp only [runMountParent.join, if_neg hraw, run, Bool.false_eq_true, if_false, toExitCode, wifexited_exited, if_true,
      wexitstatus_exited, exitByte]
    omega

theorem exitCode_eq {r : MountRun} (h : "detach" ∉ r.lines) : r.exitCode = exitByte (run true r.runMount) := by
  unfold exitCode
  rw [runMountParent_eq_join (detach_not_mem_pipeLines h), main_eq, main_eq]
  simp only [WaitStatus.ofExit, wexitstatus_exited, run_join]

/-! ## The exit code -/

/-- Without a detach, the command's exit code is right exactly when `StatusKept` says so. -/
theorem propagates_iff (r : MountRun) (h : "detach" ∉ r.lines) : r.Propagates ↔ r.StatusKept := by
  have hsucc := vmSucceeded_iff r
  obtain ⟨hother, hvm⟩ := run_runMount r
  unfold Propagates StatusKept
  by_cases he : r.EndsOtherwise
  · -- the child exits with one, whatever the VM did
    rw [exitCode_eq h, hother he]
    have h1 : exitByte 1 = 1 := rfl
    simp only [he, h1, not_true_eq_false, false_and, true_and, false_or]
    refine and_congr (by simp) ?_
    constructor
    · intro hp c hlt hc
      by_cases hc0 : c = 0
      · omega
      · have hcode := hp c hlt hc hc0
        rw [hc, toExitCode, if_pos (wifexited_exited _ _), wexitstatus_exited] at hcode
        omega
    · intro hp c hlt hc hc0
      have hle := hp c hlt hc
      rw [hc, toExitCode, if_pos (wifexited_exited _ _), wexitstatus_exited]
      omega
  · rw [exitCode_eq h, hvm he, hsucc]
    simp only [he, not_false_eq_true, true_and, false_and, or_false]
    cases hs : r.vmStatus with
    | exited code hlt =>
      by_cases hc : code = 0
      · -- a clean exit: the number is what the VM reported
        subst hc
        have hnum : r.vmNumber = r.reported := by simp [vmNumber, hs, WaitStatus.raw]
        have hraw : (WaitStatus.exited 0 hlt).raw = 0 := rfl
        simp only [hnum, hraw, true_and, exitByte, WaitStatus.exited.injEq]
        constructor
        · rintro ⟨hiff, -⟩ c hc' rfl
          refine ⟨rfl, ?_⟩
          omega
        · intro hp
          have hrep := (hp 0 hlt rfl).2
          refine ⟨by omega, ?_⟩
          rintro c - rfl hne
          exact absurd rfl hne
      · -- a nonzero exit code leaves the low byte of the raw status empty
        have hraw : (WaitStatus.exited code hlt).raw ≠ 0 := by
          simp only [WaitStatus.raw]
          omega
        have hnum : r.vmNumber = (WaitStatus.exited code hlt).raw := by rw [vmNumber, hs, if_neg hraw]
        rw [hnum, exitByte_exited]
        constructor
        · rintro ⟨hiff, -⟩
          exact absurd (hiff.1 rfl).1 hraw
        · intro hp
          exact absurd (hp code hlt rfl).1 hc
    | signaled sig hsig core =>
      have hraw : (WaitStatus.signaled sig hsig core).raw ≠ 0 := by
        intro h0
        cases (WaitStatus.raw_eq_zero_iff _).1 h0
      have hnum : r.vmNumber = (WaitStatus.signaled sig hsig core).raw := by rw [vmNumber, hs, if_neg hraw]
      have hbyte := exitByte_signaled sig hsig core
      simp only [hnum, Int.natCast_eq_zero, hbyte, hraw, false_and, reduceCtorEq, false_implies, implies_true, and_true]

/-- A VM that was killed by signal 9 while the child supervised it: the command fails too. -/
theorem propagates_iff_killed :
    (⟨.signaled 9 (by decide) false, .failed none, false, ["join"], true⟩ : MountRun).Propagates := by
  refine (propagates_iff _ (by decide)).2 (Or.inl ⟨?_, ?_⟩)
  · rintro (h | ⟨h, -⟩) <;> exact absurd h (by decide)
  · intro c h hc
    cases hc

/-- The VM exits with code one after its NFS server was ready, and the command exits with zero. -/
theorem propagates_false : ¬ ∀ r : MountRun, "detach" ∉ r.lines → r.Propagates := by
  intro hall
  have hp := hall ⟨.exited 1 (by decide), .ready ⟨none, none, false, []⟩, false, ["join"], true⟩ (by decide)
  have h0 : MountRun.exitCode ⟨.exited 1 (by decide), .ready ⟨none, none, false, []⟩, false, ["join"], true⟩ = 0 := by
    decide
  have := (hp.1.1 h0).1
  cases this

end MountRun

end Anylinuxfs
