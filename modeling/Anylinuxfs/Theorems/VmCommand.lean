import Anylinuxfs.VmCommand

/-!
# When a command's output can be read

`run_vmcommand_short` comes to an end exactly if what the VM writes as errors fits into a pipe; `echo_child_output` always does.
-/

namespace Anylinuxfs

open Transition (Inevitable)

namespace VmCommand

variable {cap : Nat} {output : List (Output × UInt8)}

/-- However a pipe gives its bytes, the loop puts them together again. -/
theorem readAllFromFd_of_serves {bytes : List UInt8} {results : List ReadResult} (h : Serves bytes results) (before : List UInt8) :
    readAllFromFd before results = some (.ok (before ++ bytes)) := by
  induction h generalizing before with
  | ends rest => rw [List.append_nil, readAllFromFd]
  | gives _ _ _ ih => rw [readAllFromFd, ih, List.append_assoc]
  | interrupts _ ih => rw [readAllFromFd, ih]

/-- `run_vmcommand_short` reads what its only thread reads, in this order, and then asks for the status. -/
theorem runVmcommandShort_eq (reads : Output → List ReadResult) (waitpid : Option Int) {order : List Output}
    (h : order ∈ shortReaders) :
    runVmcommandShort (reads .out) (reads .err) waitpid = (readInTurn reads order).map fun r => r.bind fun got =>
      match waitpid with
      | some status => .ok ⟨toExitCode status, got.getD 0 [], got.getD 1 []⟩
      | none => .error "Failed to wait for child process".toList := by
  obtain rfl := List.mem_singleton.1 h
  unfold runVmcommandShort
  simp only [readInTurn]
  cases readAllFromFd [] (reads .out) with
  | none => rfl
  | some out =>
    cases out with
    | error e => rfl
    | ok out =>
      cases readAllFromFd [] (reads .err) with
      | none => rfl
      | some err =>
        cases err with
        | error e => rfl
        | ok err => cases waitpid <;> rfl

/-- `echo_child_output` returns when each of its threads has come to the end of what it reads. -/
theorem isSome_echoChildOutput (reads : Output → List ReadResult) :
    (echoChildOutput (reads .out) (reads .err)).isSome ↔ ∀ order ∈ echoReaders, ∀ c ∈ order, (readLines [] (reads c)).isSome := by
  unfold echoChildOutput
  cases hout : readLines [] (reads .out) <;> cases herr : readLines [] (reads .err) <;> simp [echoReaders, hout, herr]

/-- However the pipes give their bytes, all of them are echoed. -/
theorem echoChildOutput_of_serves {out err : List UInt8} {outReads errReads : List ReadResult} (hout : Serves out outReads)
    (herr : Serves err errReads) : echoChildOutput outReads errReads = some (out, err) := by
  have hread : ∀ {bytes : List UInt8} {results : List ReadResult}, Serves bytes results → ∀ before,
      readLines before results = some (before ++ bytes) := by
    intro bytes results h
    induction h with
    | ends rest =>
      intro before
      rw [List.append_nil, readLines]
    | gives _ _ _ ih =>
      intro before
      rw [readLines, ih, List.append_assoc]
    | interrupts _ ih =>
      intro before
      rw [readLines, ih]
  unfold echoChildOutput
  rw [hread hout, hread herr]
  rfl

theorem returns_of_got {s : Pipes.State Output UInt8} (hdone : s.Done)
    (hgot : ∀ c ∈ shortReaders.flatten, s.got c = Pipes.sent output c) : Returns output s := by
  refine ⟨hdone, fun outReads errReads status hout herr => ?_⟩
  unfold runVmcommandShort
  rw [readAllFromFd_of_serves hout, readAllFromFd_of_serves herr, hgot .out (by simp [shortReaders]), hgot .err (by simp [shortReaders])]
  rfl

/-- Whatever a VM writes, and in whatever order, every run of the command ends with all of it exactly if its errors fit into a
pipe. -/
theorem runVmcommandShort_iff (hcap : 0 < cap) (output : List (Output × UInt8)) :
    Inevitable (Pipes.step cap) (Returns output) (Pipes.init output shortReaders) ↔ (Pipes.sent output .err).length ≤ cap := by
  constructor
  · intro h
    have hdone : Inevitable (Pipes.step cap) Pipes.State.Done (Pipes.init output shortReaders) := h.strengthen fun _ _ hs => hs.1
    exact Pipes.fits_of_inevitable_done hdone (by simp [Pipes.heads, shortReaders])
  · intro hfit
    have hdone : Inevitable (Pipes.step cap) _ (Pipes.init output shortReaders) := Pipes.inevitable_done hcap fun c hc => by
      cases c with
      | out => exact absurd (by simp [Pipes.heads, shortReaders]) hc
      | err => exact hfit
    exact hdone.strengthen fun s _ hs => returns_of_got hs.1 hs.2

/-- An error of two bytes through a pipe of four. -/
theorem runVmcommandShort_small :
    Inevitable (Pipes.step 4) (Returns [(.err, 101), (.out, 91), (.err, 10)])
      (Pipes.init [(.err, 101), (.out, 91), (.err, 10)] shortReaders) :=
  (runVmcommandShort_iff (by decide) _).2 (by decide)

/-- Otherwise every run gets stuck: the VM waits for room in the pipe of its errors, and the parent for its other output. -/
theorem runVmcommandShort_stuck (hlong : cap < (Pipes.sent output .err).length) :
    Inevitable (Pipes.step cap) (fun s => s.running = true ∧ ∀ a, Pipes.step cap s a = none) (Pipes.init output shortReaders) :=
  Pipes.inevitable_stuck (c := Output.err) (by simp [Pipes.heads, shortReaders]) hlong

/-- The readers of `echo_child_output` come to the end of both outputs, whatever is written. -/
theorem echoChildOutput_done (hcap : 0 < cap) (output : List (Output × UInt8)) :
    Inevitable (Pipes.step cap) (fun s => s.Done ∧ ∀ c, s.got c = Pipes.sent output c) (Pipes.init output echoReaders) := by
  have hdone : Inevitable (Pipes.step cap) _ (Pipes.init output echoReaders) := Pipes.inevitable_done hcap fun c hc => by
    cases c <;> exact absurd (by simp [Pipes.heads, echoReaders]) hc
  exact hdone.strengthen fun s _ hs => ⟨hs.1, fun c => hs.2 c (by cases c <;> simp [echoReaders])⟩

/-- Two bytes of errors through a pipe of one. -/
theorem echoChildOutput_small :
    Inevitable (Pipes.step 1) (fun s => s.Done ∧ ∀ c, s.got c = Pipes.sent [(Output.err, (97 : UInt8)), (.err, 98)] c)
      (Pipes.init [(.err, 97), (.err, 98)] echoReaders) :=
  echoChildOutput_done Nat.one_pos _

end VmCommand

end Anylinuxfs
