import Anylinuxfs.Lemmas.CtrlSocket

/-!
# Delivery of the report

Over every sequence of connections and every interleaving of the accept loop, the subscribers and one call of `send_report`, the
report is delivered as it should be (`delivers_of_reach`).
-/

namespace Anylinuxfs

open VmCtrl Transition

namespace CtrlSys

variable {s : CtrlSys}

/-- In every run `done` is signalled at most once, at most one subscriber receives a report, and after a subscription that came
before the first `Quit`, `send_report` returns `Ok` only after its report was written to the subscriber that took the channel. -/
theorem delivers_of_reach (h : Reach step Any {} s) : s.Delivers :=
  (h.invariant Inv inv_init fun _ _ _ hi _ hs => hi.step hs).delivers

/-- Two subscribers, a `Quit` between their spawn and the report, and a write that fails. -/
theorem delivers_two_subscribers :
    ∃ s : CtrlSys, s.handled = [.subscribeEvents, .subscribeEvents, .quit] ∧ s.threads = [.finished, .finished] ∧
      s.sendReport = .returned ⟨bytes "log"⟩ true ∧ s.Delivers := by
  obtain ⟨s, hs, hhandled, hthreads, hret⟩ := exists_reach step Any
    (fun s => s.handled = [.subscribeEvents, .subscribeEvents, .quit] ∧ s.threads = [.finished, .finished] ∧
      s.sendReport = .returned ⟨bytes "log"⟩ true) {}
    [.incoming (.request .subscribeEvents), .loop, .incoming .malformed, .incoming (.request .subscribeEvents), .loop,
      .thread 1 true, .incoming (.request .quit), .loop, .sendReport ⟨bytes "log"⟩, .thread 1 true, .thread 1 false,
      .thread 1 true, .recvDone, .thread 0 true] (by decide)
  exact ⟨s, hhandled, hthreads, hret, delivers_of_reach hs⟩

end CtrlSys

end Anylinuxfs
