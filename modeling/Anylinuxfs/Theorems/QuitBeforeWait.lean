import Anylinuxfs.Lemmas.QuitBeforeWait
import Anylinuxfs.Theorems.RootfsLock

/-!
# No wait for a VM that nobody stopped

A mount registers the deferred wait for its VM right after the fork, but the deferred quit command only once the NFS server is
ready, and the branch for a server that is not ready waits without one. So a VM that is not over is told to quit before it is
waited for as long as nothing fails in between (`quitBeforeWait_of_reach`); a step that fails after the fork leaves the process
waiting for a VM that runs on (`quitBeforeWait_false`).
-/

namespace Anylinuxfs

open Transition

theorem quitsFirst_append {events : List Event} {e : Event} (h : QuitsFirst events)
    (he : e = .waitForVmStatus false → Event.sendQuitCmd ∈ events) : QuitsFirst (events ++ [e]) := by
  intro before after heq
  rcases List.eq_nil_or_concat after with rfl | ⟨after, last, rfl⟩
  · have hinj := List.append_inj' heq rfl
    rw [← hinj.1]
    exact he (List.singleton_inj.1 hinj.2)
  · have heq' : events ++ [e] = (before ++ .waitForVmStatus false :: after) ++ [last] := by simpa using heq
    exact h before after (List.append_inj' heq' rfl).1

/-- A mount is guarded or settled, and has waited for no VM that nobody stopped. -/
structure QuitInv (v : View) : Prop where
  body : Scoped lockCheck v
  guarded : Guarded v.proc.code v.proc.deferred v.proc.ids = true ∨ Settled v
  quitsFirst : QuitsFirst v.proc.events

/-- A step keeps the invariant, if what fails and what is not ready finds the quit arranged. -/
theorem QuitInv.step {granted : FlockKind → Bool} {v v' : View} {act : Act} (h : QuitInv v) (hs : LocalStep granted v act v')
    (hcond : act = .step false → v.proc.code.head?.any Op.mayFail = true → QuitArranged v) : QuitInv v' := by
  have hguarded : Guarded v'.proc.code v'.proc.deferred v'.proc.ids = true ∨ Settled v' := by
    rcases h.guarded with hg | hsettled
    · exact guarded_step h.body hg hs hcond
    · exact Or.inr (hsettled.step hs)
  refine ⟨h.body.step neutral_lockCheck hs, hguarded, ?_⟩
  have hevents := h.quitsFirst
  cases hs with
  | sendQuitCmd ok hcall hcode => exact quitsFirst_append hevents fun he => (nomatch he)
  | waitForVmStatus ok hcall hcode =>
    -- a guarded body never comes to the wait, so the process is settled
    refine quitsFirst_append hevents fun he => ?_
    rcases h.guarded with hg | hsettled
    · rw [hcode] at hg
      cases hg
    · refine hsettled.1.resolve_left fun hover => ?_
      rw [hover] at he
      cases he
  | upgradeFlock ok hcall | acquireLock ok hcall hcode => split <;> exact hevents
  | dropGuard ok hcall hcode hguards | dropInner ok hcall hcode hguards =>
    simp only [View.setCode, dropGuard_code]
    exact hevents
  | vmDropLocal hvm hguards hcall hproc =>
    obtain ⟨vm, hproc, _⟩ := hproc
    rw [hproc]
    exact hevents
  | _ => exact hevents

namespace CommandSys

variable {P : Type} [DecidableEq P]

/-- An operation of the process other than the quit command fails, or finds the NFS server not ready, only when the wait for its VM
is not registered, the VM is over, or the quit command was sent or is registered. -/
def FailsArranged (p : P) (s : CommandSys P) (a : P × Act) : Prop :=
  a = (p, .step false) → (s.proc p).code.head?.any Op.mayFail = true → QuitArranged (s.view p)

instance (p : P) (s : CommandSys P) (a : P × Act) : Decidable (FailsArranged p s a) :=
  inferInstanceAs (Decidable (_ → _ → _ → _ ∨ _ ∨ _))

/-- In every run of a mount in which nothing fails between the registrations of the wait and of the quit command unless the VM is
over (a quit command that fails was attempted), and the NFS server is not ready only when the VM is over, a VM that is not over is
told to quit before it is waited for. -/
theorem quitBeforeWait_of_reach {cmd : P → Command} {p : P} {c : MountCase} (hcmd : cmd p = .mount c) {s : CommandSys P}
    (h : Reach step (FailsArranged p) (init cmd) s) : s.QuitBeforeWait p := by
  have hi : QuitInv (s.view p) := by
    refine view_invariant h p QuitInv ?_ fun s act v' hi hcond hs => hi.step hs fun hact => hcond (by rw [hact])
    rw [view_init, hcmd]
    refine ⟨⟨.nil, fun hc => absurd rfl hc, fun hc => (nomatch hc), along_runMountChild_lock c⟩,
      Or.inl (guarded_runMountChild c), ?_⟩
    intro before after heq
    simp [Proc.start] at heq
  exact hi.quitsFirst

/-- A mount whose event session cannot be made sends the quit command from its deferred actions and then waits. -/
theorem quitBeforeWait_of_mount : ∃ s : CommandSys Unit,
    (s.proc ()).events = [.sendQuitCmd, .waitForVmStatus false] ∧ s.QuitBeforeWait () := by
  obtain ⟨s, hreach, hevents⟩ := exists_reach step (FailsArranged ())
    (fun s : CommandSys Unit => (s.proc ()).events = [.sendQuitCmd, .waitForVmStatus false])
    (init fun _ => .mount plainMount)
    (List.replicate 25 ((), .step true) ++ [((), .step false)] ++ List.replicate 8 ((), .step true)) (by decide)
  exact ⟨s, hevents, quitBeforeWait_of_reach (by rfl) hreach⟩

/-- A mount fails to start its signal publisher after the fork, and then waits for a VM that nobody tells to quit. -/
theorem quitBeforeWait_false :
    ¬∀ (c : MountCase) (s : CommandSys Unit), Reach step Any (init fun _ => .mount c) s → s.QuitBeforeWait () := by
  intro h
  obtain ⟨s, hreach, hevents⟩ := exists_reach step Any
    (fun s : CommandSys Unit => (s.proc ()).events = [.waitForVmStatus false]) (init fun _ => .mount plainMount)
    (List.replicate 15 ((), .step true) ++ [((), .vm .enter), ((), .step false)] ++ List.replicate 3 ((), .step true))
    (by decide)
  have hmem := h plainMount s hreach [] [] hevents
  cases hmem

end CommandSys

end Anylinuxfs
