import Anylinuxfs.Supervise

/-!
# The pipe to the parent process

The supervising process closes its end of the pipe when it detaches, in the middle of `run_mount_child`, and `run_mount` writes
to the same descriptor whenever `run_mount_child` fails. The two meet exactly when a step after the detachment fails.
-/

namespace Anylinuxfs
namespace Supervise

open Interact (Prog)
open Interact.Prog (Precedes)

variable {env : ∀ c : Call, c.Answer}

/-! ## Single steps -/

/-- A failure that is passed on ends the part. -/
@[simp] theorem orFail_result {ok : Bool} {u : Unit} : (orFail ok).result env = .ok u ↔ ok = true := by
  cases ok <;> simp [orFail]

/-- Passing a failure on makes no call. -/
@[simp] theorem orFail_trace {ok : Bool} : (orFail ok).trace env = [] := by
  cases ok <;> rfl

/-- There is no order of calls in it. -/
@[simp] theorem orFail_precedes {ok : Bool} {c c' : Call} : ¬ Precedes env (orFail ok) c c' := by
  simp [Precedes]

/-- An error that is passed on is the result. -/
@[simp] theorem orThrow_result {α : Type} {r : Except AppError α} : (orThrow r).result env = r := by
  cases r <;> rfl

/-- Passing an error on makes no call. -/
@[simp] theorem orThrow_trace {α : Type} {r : Except AppError α} : (orThrow r).trace env = [] := by
  cases r <;> rfl

/-- There is no order of calls in this either. -/
@[simp] theorem orThrow_precedes {α : Type} {r : Except AppError α} {c c' : Call} : ¬ Precedes env (orThrow r) c c' := by
  simp [Precedes]

/-- A call is a call whose answer is returned. -/
@[simp] theorem sys_eq (c : Call) : sys c = Prog.call c Prog.ret := rfl

/-- A stage goes on when its call succeeds. -/
@[simp] theorem attempt_result {what : Stage} {u : Unit} :
    (attempt what).result env = .ok u ↔ env (.stage what) = true := by
  simp [attempt]

/-- The call of a stage is the only one. -/
@[simp] theorem mem_attempt_trace {what : Stage} {c : Call} : c ∈ (attempt what).trace env ↔ c = .stage what := by
  simp [attempt]

/-- One call has no order. -/
@[simp] theorem attempt_precedes {what : Stage} {c c' : Call} : ¬ Precedes env (attempt what) c c' := by
  simp [attempt]

/-! ## The parts of the process -/

/-- The child gets to the fork when its first nine stages succeed; it can detach when `setsid` succeeds. -/
theorem beforeFork_result {canDetach : Bool} : beforeFork.result env = .ok canDetach ↔
    (∀ what ∈ stagesBeforeDetach.take 9, env (.stage what) = true) ∧ canDetach = env .setsid := by
  simp [beforeFork, stagesBeforeDetach]
  grind

/-- The pipe is not closed before the fork. -/
theorem beforeFork_close : Call.closePipe ∉ beforeFork.trace env := by
  simp [beforeFork]

/-- The loop of the prompts always ends. -/
theorem promptLoop_result (n : Nat) : (promptLoop n).result env = .ok () := by
  induction n with
  | zero => rfl
  | succ n ih => simpa [promptLoop] using ih

/-- It only receives prompts. -/
theorem promptLoop_trace {n : Nat} {c : Call} (h : c ∈ (promptLoop n).trace env) : c = .recvPrompt := by
  induction n with
  | zero => simp [promptLoop] at h
  | succ n ih =>
    simp [promptLoop] at h
    rcases h with h | h
    · exact h
    · exact ih h

/-- The child waits for the server when the publisher, five more stages and the forwarder succeed. -/
theorem awaitNfsServer_result {n : Nat} {r : Nat × NfsStatus} : (awaitNfsServer n).result env = .ok r ↔
    env .startSignalPublisher = true ∧ (∀ what ∈ (stagesBeforeDetach.drop 9).take 5, env (.stage what) = true) ∧
      env (.stdinForwarderNew (env (.subscribe .stdinForwarder))) = true ∧
      r = (env (.subscribe .stdinForwarder), env .waitForNfsServer) := by
  simp [awaitNfsServer, stagesBeforeDetach, promptLoop_result]
  grind

/-- The pipe is not closed before the server is waited for. -/
theorem awaitNfsServer_close {n : Nat} : Call.closePipe ∉ (awaitNfsServer n).trace env := by
  simp [awaitNfsServer]
  grind [promptLoop_trace]

/-- The word is written, and the output is redirected if the session detaches. -/
theorem detachOrJoin_result {canDetach : Bool} {u : Unit} : (detachOrJoin canDetach).result env = .ok u ↔
    if canDetach then env (.writeToPipe .runMountChild "detach") = true ∧ env (.stage .redirectStdioToNull) = true
    else env (.writeToPipe .runMountChild "join") = true := by
  cases canDetach <;> simp [detachOrJoin]

/-- The pipe is closed once `detach` has been written. -/
theorem detachOrJoin_close {canDetach : Bool} : .closePipe ∈ (detachOrJoin canDetach).trace env ↔
    canDetach = true ∧ env (.writeToPipe .runMountChild "detach") = true := by
  cases canDetach <;> simp [detachOrJoin]

/-- Nothing is written behind the end of the pipe. -/
theorem detachOrJoin_precedes {canDetach : Bool} {c : Call} (hc : c.isWrite = true) :
    ¬ Precedes env (detachOrJoin canDetach) .closePipe c := by
  cases canDetach with
  | false => simp [detachOrJoin]
  | true =>
    simp [detachOrJoin]
    rintro - rfl
    cases hc

/-- A session ends well when its privileges are dropped, the word is written and the VM is told to quit. -/
theorem mountSession_result {canDetach : Bool} {u : Unit} : (mountSession canDetach).result env = .ok u ↔
    env (.stage .dropPrivileges) = true ∧ (detachOrJoin canDetach).result env = .ok () ∧ env (.stage .sendQuitCmd) = true := by
  cases hm : env .mountShare <;> simp [mountSession, hm, Unique.exists_iff]

/-- The session closes the pipe where it detaches. -/
theorem mountSession_close {canDetach : Bool} : .closePipe ∈ (mountSession canDetach).trace env ↔
    env (.stage .dropPrivileges) = true ∧ .closePipe ∈ (detachOrJoin canDetach).trace env := by
  cases hm : env .mountShare <;> simp [mountSession, hm]

/-- Nothing is written behind it in the session. -/
theorem mountSession_precedes {canDetach : Bool} {c : Call} (hc : c.isWrite = true) :
    ¬ Precedes env (mountSession canDetach) .closePipe c := by
  cases hm : env .mountShare <;> simp [mountSession, hm, detachOrJoin_precedes hc]
  · grind [Call.isWrite]
  · grind [Call.isWrite]

/-- With a server, the child ends well when its event session is made and the session ends well. -/
theorem nfsReady_result {canDetach : Bool} {id : Nat} {u : Unit} : (nfsReady canDetach id).result env = .ok u ↔
    env (.eventSessionNew (env (.subscribe .eventSession))) = true ∧ (mountSession canDetach).result env = .ok () := by
  simp [nfsReady]

/-- With a server, the pipe is closed in the session. -/
theorem nfsReady_close {canDetach : Bool} {id : Nat} : .closePipe ∈ (nfsReady canDetach id).trace env ↔
    env (.eventSessionNew (env (.subscribe .eventSession))) = true ∧ .closePipe ∈ (mountSession canDetach).trace env := by
  simp [nfsReady]

/-- With a server, nothing is written behind the end of the pipe. -/
theorem nfsReady_precedes {canDetach : Bool} {id : Nat} {c : Call} (hc : c.isWrite = true) :
    ¬ Precedes env (nfsReady canDetach id) .closePipe c := by
  simp [nfsReady, mountSession_precedes hc]
  rintro - - rfl
  cases hc

/-- Without a server, the pipe is not closed. -/
theorem nfsNotReady_close : Call.closePipe ∉ nfsNotReady.trace env := by
  simp [nfsNotReady]

/-- Waiting for the VM is one call. -/
theorem mem_waitForVm_trace {nfsStatus : NfsStatus} {c : Call} : c ∈ (waitForVm nfsStatus).trace env ↔ c = .waitpid := by
  simp [waitForVm]

/-- Once the server is ready, the last step succeeds when the VM process ended with status zero or is not there any more. -/
theorem waitForVm_result {state : NfsReadyState} {u : Unit} : (waitForVm (.ready state)).result env = .ok u ↔
    match env .waitpid with
    | .ok s => s.raw = 0
    | .error errno => errno = echild := by
  have hlast : (waitForVm (.ready state)).result env = .ok u ↔
      (waitForVmStatus (env .waitpid) >>= checkStatus (.ready state)) = .ok u := by simp [waitForVm]
  rw [hlast]
  cases env .waitpid with
  | ok s => by_cases hs : s.raw = 0 <;> simp [hs, waitForVmStatus, checkStatus, Bind.bind, Except.bind]
  | error errno => by_cases he : errno = echild <;> simp [he, waitForVmStatus, checkStatus, Bind.bind, Except.bind]

/-! ## The whole process -/

/-- The pipe is closed when the server is there and the session detaches. -/
theorem supervise_close {n : Nat} {canDetach : Bool} : .closePipe ∈ (supervise n canDetach).trace env ↔
    (awaitNfsServer n).result env = .ok (env (.subscribe .stdinForwarder), env .waitForNfsServer) ∧
      (env .waitForNfsServer).ok = true ∧
      .closePipe ∈ (nfsReady canDetach (env (.subscribe .stdinForwarder))).trace env := by
  cases hs : env .waitForNfsServer <;>
    simp [supervise, awaitNfsServer_close, awaitNfsServer_result, mem_waitForVm_trace, nfsNotReady_close, NfsStatus.ok, hs]

/-- Nothing is written behind the end of the pipe while the VM is supervised. -/
theorem supervise_precedes {n : Nat} {canDetach : Bool} {c : Call} (hc : c.isWrite = true) :
    ¬ Precedes env (supervise n canDetach) .closePipe c := by
  have hwait : c ≠ .waitpid := by
    rintro rfl
    cases hc
  intro h
  simp only [supervise, Prog.precedes_bind] at h
  rcases h with h | ⟨⟨id, nfsStatus⟩, -, h | ⟨h, -⟩⟩
  · exact awaitNfsServer_close h.mem_left
  · cases nfsStatus <;>
      simp only [Prog.precedes_bind, mem_waitForVm_trace, hwait, and_false, or_false] at h <;>
      rcases h with h | ⟨-, -, h⟩
    · exact nfsReady_precedes hc h
    · simp [waitForVm] at h
    · exact nfsNotReady_close h.mem_left
    · simp [waitForVm] at h
  · exact awaitNfsServer_close h

/-- The detachment, part by part. -/
theorem detaches_iff (n : Nat) : Detaches env ↔ env .fork = .parent ∧ beforeFork.result env = .ok true ∧
    (awaitNfsServer n).result env = .ok (env (.subscribe .stdinForwarder), env .waitForNfsServer) ∧
    (env .waitForNfsServer).ok = true ∧ env (.eventSessionNew (env (.subscribe .eventSession))) = true ∧
    env (.stage .dropPrivileges) = true ∧ env (.writeToPipe .runMountChild "detach") = true := by
  constructor
  · rintro ⟨⟩
    simp_all [stagesBeforeDetach, beforeFork_result, awaitNfsServer_result]
  · rintro ⟨hfork, hbefore, hawait, hready, hsession, hdrop, hwritten⟩
    obtain ⟨hstages, hsetsid⟩ := beforeFork_result.1 hbefore
    obtain ⟨hpublisher, hstages', hforwarder, -⟩ := awaitNfsServer_result.1 hawait
    refine ⟨fun what hwhat => ?_, hsetsid.symm, hfork, hpublisher, hforwarder, hready, hsession, hwritten⟩
    have hmem : what ∈ stagesBeforeDetach.take 9 ∨ what ∈ (stagesBeforeDetach.drop 9).take 5 ∨ what = .dropPrivileges := by
      simpa [stagesBeforeDetach, or_assoc] using hwhat
    rcases hmem with h | h | rfl
    · exact hstages what h
    · exact hstages' what h
    · exact hdrop

/-- The child closes the pipe exactly when it detaches. -/
theorem runMountChild_close {n : Nat} : .closePipe ∈ (runMountChild n).trace env ↔ Detaches env := by
  rw [detaches_iff n]
  cases hf : env .fork <;> simp [runMountChild, beforeFork_close, startVm, hf]
  simp [supervise_close, nfsReady_close, mountSession_close, detachOrJoin_close]

/-- After the detachment the process fails exactly when it does not end well. -/
theorem runMountChild_result {n : Nat} (hd : Detaches env) : (runMountChild n).result env = .ok () ↔ EndsWell env := by
  obtain ⟨hfork, hbefore, hawait, hready, hsession, hdrop, hwritten⟩ := (detaches_iff n).1 hd
  cases hs : env .waitForNfsServer with
  | failed _ => simp [hs, NfsStatus.ok] at hready
  | ready state =>
    have hres : (runMountChild n).result env = .ok () ↔ env (.stage .redirectStdioToNull) = true ∧
        env (.stage .sendQuitCmd) = true ∧ (waitForVm (.ready state)).result env = .ok () := by
      simp [runMountChild, hfork, hbefore, supervise, hawait, hs, nfsReady_result, hsession, mountSession_result, hdrop,
        detachOrJoin_result, hwritten, and_assoc]
    rw [hres, waitForVm_result]
    exact ⟨fun h => ⟨h.1, h.2.1, h.2.2⟩, fun h => ⟨h.redirected, h.quit, h.status⟩⟩

/-- The child writes nothing behind the end of the pipe. -/
theorem runMountChild_precedes {n : Nat} {c : Call} (hc : c.isWrite = true) :
    ¬ Precedes env (runMountChild n) .closePipe c := by
  have hdrop : c ≠ .dropDeferred := by
    rintro rfl
    cases hc
  have hbefore : ¬ Precedes env beforeFork .closePipe c := fun h => beforeFork_close h.mem_left
  cases hf : env .fork <;>
    simp [runMountChild, hf, hdrop, startVm, supervise_precedes hc, beforeFork_close, hbefore]

/-- The process keeps the discipline of the pipe exactly when it does not detach, or nothing fails after that. -/
theorem pipeDiscipline_iff (env : ∀ c : Call, c.Answer) (callbacks : Nat) :
    PipeDiscipline ((runMount callbacks).trace env) ↔ ¬ (Detaches env ∧ ¬ EndsWell env) := by
  have hlate : ∀ c, c.isWrite = true → ([.closePipe, c].Sublist ((runMount callbacks).trace env) ↔
      (∃ e, (runMountChild callbacks).result env = .error e) ∧ Detaches env ∧ c = .writeToPipe .runMount "join") := by
    intro c hc
    change Precedes env (runMount callbacks) .closePipe c ↔ _
    simp [runMount, runMountChild_precedes hc, runMountChild_close]
  have hfails : Detaches env → ((∃ e, (runMountChild callbacks).result env = .error e) ↔ ¬ EndsWell env) := by
    intro hd
    rw [← runMountChild_result (n := callbacks) hd]
    cases (runMountChild callbacks).result env <;> simp
  constructor
  · rintro h ⟨hd, he⟩
    exact h _ rfl ((hlate _ rfl).2 ⟨(hfails hd).2 he, hd, rfl⟩)
  · intro h c hc hsub
    obtain ⟨hfail, hd, -⟩ := (hlate c hc).1 hsub
    exact h ⟨hd, (hfails hd).1 hfail⟩

/-- A VM that exits with status one after the detachment makes `run_mount` write to the closed descriptor. -/
theorem pipeDiscipline_false : ¬ ∀ env callbacks, PipeDiscipline ((runMount callbacks).trace env) := by
  intro h
  exact h (smooth (.exited 1 (by decide))) 0 (.writeToPipe .runMount "join") rfl (by decide)

end Supervise
end Anylinuxfs
