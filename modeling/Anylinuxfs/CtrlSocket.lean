import Anylinuxfs.Ipc
import Anylinuxfs.Lib.Reach

/-!
# The control socket

`CtrlSocketServer` of `vmproxy`: the accept loop, the threads of the subscribers, and the caller of `send_report`. A step is
one action of one thread on what they share: the flag `events_subscribed`, the two channel ends that are taken once, and the
channels. The mutex of `report_rx` is held as long as a subscriber is busy with the report, because the guard of an `if let`
lives to the end of its body.
-/

namespace Anylinuxfs

open VmCtrl

/-- What `listener.incoming()` and `read_request` give next. -/
inductive Incoming where
  | acceptError
  | malformed
  | request (r : Request)
  deriving DecidableEq, Repr

/-- The accept loop: it waits for a connection, has acknowledged a `Quit` but not yet looked at the flag, has set the flag for a
subscriber but not yet spawned the thread, waits for the threads of its scope, or has ended. -/
inductive AcceptLoop where
  | accepting | quitting | spawning | leaving | gone
  deriving DecidableEq, Repr

/-- A thread of a subscriber: it has not looked for the receiver yet, waits for the report, writes it, is about to signal, or has
ended. -/
inductive Subscriber where
  | spawned
  | waiting
  | writing (report : Report)
  | signalling
  | finished
  deriving DecidableEq, Repr

/-- Where the receiver of the report is: to be taken, with a thread, or gone. -/
inductive ReportRx where
  | shared
  | taken (thread : Nat)
  | dropped
  deriving DecidableEq, Repr

/-- Where the sender of `done` is: to be taken, used, or dropped without being used. -/
inductive DoneTx where
  | held | sent | dropped
  deriving DecidableEq, Repr

/-- The caller of `send_report`. -/
inductive SendReport where
  | before
  | waiting (report : Report)
  | returned (report : Report) (ok : Bool)
  deriving DecidableEq, Repr

/-- The report that was sent on the channel. -/
def SendReport.sent : SendReport → Option Report
  | .before => none
  | .waiting report => some report
  | .returned report ok => if ok then some report else none

/-- The state of the server and of its caller, with what has happened: the requests that were handled, how often `done` was
signalled, which thread took the receiver, and which reports were written to whom, with or without success. -/
structure CtrlSys where
  loop : AcceptLoop := .accepting
  eventsSubscribed : Bool := false
  doneTx : DoneTx := .held
  reportRx : ReportRx := .shared
  reportTx : Bool := true
  reports : List Report := []
  threads : List Subscriber := []
  sendReport : SendReport := .before
  handled : List Request := []
  doneSignals : Nat := 0
  taker : Option Nat := none
  written : List (Nat × Report × Bool) := []
  deriving DecidableEq, Repr

namespace CtrlSys

/-- `if let Some(done_tx) = done_tx.lock().unwrap().take() { _ = done_tx.send(()); }` -/
def signalDone (s : CtrlSys) : CtrlSys :=
  if s.doneTx = .held then { s with doneTx := .sent, doneSignals := s.doneSignals + 1 } else s

/-- A connection comes in. -/
def accept (s : CtrlSys) : Incoming → CtrlSys
  | .acceptError => { s with loop := .leaving }
  | .malformed => s
  | .request .quit => { s with loop := .quitting, handled := s.handled ++ [.quit] }
  | .request .subscribeEvents =>
    { s with loop := .spawning, eventsSubscribed := true, handled := s.handled ++ [.subscribeEvents] }

/-- The accept loop goes on without a connection. -/
def loopStep (s : CtrlSys) : Option CtrlSys :=
  match s.loop with
  | .accepting => none
  | .quitting => some { (if s.eventsSubscribed then s else s.signalDone) with loop := .leaving }
  | .spawning => some { s with loop := .accepting, threads := s.threads ++ [.spawned] }
  | .leaving =>
    if ∀ t ∈ s.threads, t = .finished then
      some { s with
        loop := .gone
        doneTx := if s.doneTx = .held then .dropped else s.doneTx
        reportRx := if s.reportRx = .shared then .dropped else s.reportRx }
    else none
  | .gone => none

/-- The report of a subscriber whose channel was closed: the text of `RecvError`. -/
def closedReport : Report := ⟨bytes "receiving on a closed channel"⟩

/-- A subscriber goes on; `ok` is whether its write succeeds. -/
def threadStep (s : CtrlSys) (i : Nat) (ok : Bool) : Option CtrlSys :=
  match s.threads[i]? with
  | none => none
  | some .spawned =>
    match s.reportRx with
    | .shared => some { s with reportRx := .taken i, taker := some i, threads := s.threads.set i .waiting }
    | .taken _ => none
    | .dropped => some { s with threads := s.threads.set i .finished }
  | some .waiting =>
    match s.reports with
    | report :: rest => some { s with reports := rest, threads := s.threads.set i (.writing report) }
    | [] => if s.reportTx then none else some { s with threads := s.threads.set i (.writing closedReport) }
  | some (.writing report) =>
    some { s with written := s.written ++ [(i, report, ok)], threads := s.threads.set i .signalling }
  | some .signalling => some { s.signalDone with reportRx := .dropped, threads := s.threads.set i .finished }
  | some .finished => none

/-- `send_report` up to the wait: the send fails when the receiver is gone. -/
def callSendReport (s : CtrlSys) (report : Report) : Option CtrlSys :=
  if s.sendReport = .before ∧ s.reportTx = true then
    if s.reportRx = .dropped then some { s with sendReport := .returned report false }
    else some { s with sendReport := .waiting report, reports := s.reports ++ [report] }
  else none

/-- The wait of `send_report` ends when `done` was signalled, and also when nobody can signal it any more. -/
def recvDone (s : CtrlSys) : Option CtrlSys :=
  match s.sendReport with
  | .waiting report => if s.doneTx = .held then none else some { s with sendReport := .returned report true }
  | _ => none

/-- The server's handle is dropped, and with it the sender of the report. -/
def dropHandle (s : CtrlSys) : Option CtrlSys :=
  match s.sendReport with
  | .waiting _ => none
  | _ => some { s with reportTx := false }

/-- What may happen. -/
inductive Act where
  | incoming (i : Incoming)
  | loop
  | thread (i : Nat) (ok : Bool)
  | sendReport (report : Report)
  | recvDone
  | dropHandle

/-- One step. -/
def step (s : CtrlSys) : Act → Option CtrlSys
  | .incoming i => if s.loop = .accepting then some (s.accept i) else none
  | .loop => s.loopStep
  | .thread i ok => s.threadStep i ok
  | .sendReport report => s.callSendReport report
  | .recvDone => s.recvDone
  | .dropHandle => s.dropHandle

/-! ## What is asked of the server -/

/-- `done` is signalled at most once, at most one subscriber receives a report, and if a subscription was handled before the
first `Quit`, `send_report` has returned `Ok` only if its report was written, or its write failed, to the subscriber that took
the channel. -/
structure Delivers (s : CtrlSys) : Prop where
  doneOnce : s.doneSignals ≤ 1
  oneReceiver : s.written.length ≤ 1
  reportFirst : .subscribeEvents ∈ s.handled.takeWhile (· ≠ .quit) → ∀ report, s.sendReport = .returned report true →
    ∃ i ok, s.taker = some i ∧ (i, report, ok) ∈ s.written

end CtrlSys

end Anylinuxfs
