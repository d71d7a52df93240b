import Mathlib.Data.Int.ModEq

/-!
# Wait statuses

What waitpid(2) reports of a process that has ended: the code it exited with, or the signal that killed it. `raw` is the number
in which the two are encoded, and the `W…` macros read them back. A call without `WUNTRACED` reports no stopped process.
-/

namespace Posix

/-- How a process ended. An exit code is one byte; the signal is one of those the encoding has room for. -/
inductive WaitStatus where
  | exited (code : Nat) (h : code < 256)
  | signaled (sig : Nat) (h : 0 < sig ∧ sig < 127) (core : Bool)
  deriving DecidableEq, Repr

/-- The code a process leaves for its parent when it calls exit(3) with a number: the low byte. -/
def exitByte (code : Int) : Nat := (code % 256).toNat

theorem exitByte_lt (code : Int) : exitByte code < 256 := by
  unfold exitByte
  omega

/-- The status of a process that called exit(3). -/
def WaitStatus.ofExit (code : Int) : WaitStatus := .exited (exitByte code) (exitByte_lt code)

/-- The number waitpid(2) stores. -/
def WaitStatus.raw : WaitStatus → Int
  | .exited code _ => code * 256
  | .signaled sig _ core => sig + if core then 128 else 0

/-- `WIFEXITED`. -/
def wifexited (status : Int) : Bool := decide (status % 128 = 0)

/-- `WEXITSTATUS`. -/
def wexitstatus (status : Int) : Int := status / 256 % 256

/-- `WTERMSIG`. -/
def wtermsig (status : Int) : Int := status % 128

/-- `WIFSIGNALED`. -/
def wifsignaled (status : Int) : Bool := decide (wtermsig status ≠ 0 ∧ wtermsig status ≠ 127)

@[simp] theorem wifexited_exited (code : Nat) (h : code < 256) : wifexited (WaitStatus.exited code h).raw = true := by
  refine decide_eq_true ?_
  simp only [WaitStatus.raw]
  omega

@[simp] theorem wexitstatus_exited (code : Nat) (h : code < 256) : wexitstatus (WaitStatus.exited code h).raw = code := by
  simp only [wexitstatus, WaitStatus.raw]
  omega

/-- Only a process that exited with code zero has the raw status zero. -/
theorem WaitStatus.raw_eq_zero_iff (s : WaitStatus) : s.raw = 0 ↔ s = .exited 0 (by decide) := by
  cases s with
  | exited code h =>
    simp only [WaitStatus.raw, WaitStatus.exited.injEq]
    omega
  | signaled sig h core =>
    simp only [WaitStatus.raw, reduceCtorEq, iff_false]
    split <;> omega

/-- The raw status of a killed process is a byte of its own, so exit(3) passes it on whole. -/
theorem exitByte_signaled (sig : Nat) (h : 0 < sig ∧ sig < 127) (core : Bool) :
    exitByte (WaitStatus.signaled sig h core).raw ≠ 0 := by
  simp only [exitByte, WaitStatus.raw]
  split <;> omega

/-- The raw status of a process that exited has an empty low byte, so exit(3) loses it whole. -/
theorem exitByte_exited (code : Nat) (h : code < 256) : exitByte (WaitStatus.exited code h).raw = 0 := by
  simp only [exitByte, WaitStatus.raw]
  omega

end Posix
