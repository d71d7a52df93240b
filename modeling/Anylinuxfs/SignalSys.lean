import Anylinuxfs.Lib.Reach
import Anylinuxfs.Settings
import Anylinuxfs.Supervise

/-!
# Termination signals

The hub of `pubsub.rs`, and the supervising process of a mount beside the threads that have to do with signals: the publisher of
`start_signal_publisher`, the thread of the `StdinForwarder`, and on macOS the thread of the `EventSession`. A step is one call
of the process, one signal that is published, or a thread that takes a signal.
-/

namespace Anylinuxfs

/-- `PubSub`: who is subscribed, the next identifier, and the messages that wait in the channels. A subscriber in the map has a
receiver, because `Subscription::drop` takes it out of the map first. -/
structure PubSub (T : Type) where
  subscribers : List Nat := []
  nextId : Nat := 0
  pending : List (Nat × T) := []
  deriving DecidableEq, Repr

namespace PubSub

variable {T : Type}

/-- `PubSub::subscribe`, whose subscription is known by its identifier, the next one. -/
def subscribe (hub : PubSub T) : PubSub T :=
  { hub with subscribers := hub.subscribers ++ [hub.nextId], nextId := hub.nextId + 1 }

/-- `PubSub::publish`. -/
def publish (hub : PubSub T) (msg : T) : PubSub T :=
  { hub with pending := hub.pending ++ hub.subscribers.map (fun id => (id, msg)) }

/-- `PubSub::unsubscribe`; what was sent before can still be received. -/
def unsubscribe (hub : PubSub T) (id : Nat) : PubSub T :=
  { hub with subscribers := hub.subscribers.filter (fun i => i ≠ id) }

/-- `Subscription::try_recv`: the oldest message of a channel. -/
def tryRecv (hub : PubSub T) (id : Nat) : Option (T × PubSub T) :=
  match hub.pending.find? (fun m => m.1 = id) with
  | some (_, msg) => some (msg, { hub with pending := hub.pending.eraseP (fun m => m.1 = id) })
  | none => none

end PubSub

open Interact (Prog)
open Supervise (Holder runMount)

/-- What has become of a subscription of the process: it is not made yet, held by the process itself, held by a thread, or
dropped. -/
inductive Watch where
  | none
  | held (id : Nat)
  | running (id : Nat)
  | ended
  deriving DecidableEq, Repr

/-- The identifier of a subscription that is not dropped. -/
def Watch.id? : Watch → Option Nat
  | .held id => some id
  | .running id => some id
  | _ => Option.none

/-- A thread takes the subscription over. -/
def Watch.spawn : Watch → Watch
  | .held id => .running id
  | w => w

/-- How far the process is, as to its signals: the publisher has not been started, nobody has subscribed yet, the forwarder is
to be told, the forwarder has been unsubscribed, the event session is to be told, nobody is to be told any more, and the mount
has ended. -/
inductive Phase where
  | unstarted | starting | forwarding | handover | session | closing | ended
  deriving DecidableEq, Repr

/-- The supervising process, the hub and the subscriptions; `lost` is whether a signal has found no subscriber. -/
structure SignalSys where
  prog : Supervise.Proc Unit
  hub : PubSub Int := {}
  phase : Phase := .unstarted
  forwarder : Watch := .none
  session : Watch := .none
  lost : Bool := false

namespace SignalSys

/-- A mount with so many passphrases to ask for starts. -/
def init (callbacks : Nat) : SignalSys := { prog := runMount callbacks }

/-- A subscription is dropped. -/
def dropWatch (hub : PubSub Int) (w : Watch) : PubSub Int :=
  match w.id? with
  | some id => hub.unsubscribe id
  | none => hub

/-- The state after a call of the process, apart from the process itself. -/
def after (os : HostOs) (s : SignalSys) : (c : Supervise.Call) → c.Answer → SignalSys
  | .startSignalPublisher, true => { s with phase := .starting }
  | .subscribe .stdinForwarder, _ =>
    { s with hub := s.hub.subscribe, phase := .forwarding, forwarder := .held s.hub.nextId }
  | .stdinForwarderNew _, true => { s with forwarder := s.forwarder.spawn }
  | .stdinForwarderNew _, false =>
    { s with hub := dropWatch s.hub s.forwarder, phase := .closing, forwarder := .ended }
  | .unsubscribe id, _ => { s with hub := s.hub.unsubscribe id, phase := .handover }
  | .subscribe .eventSession, _ =>
    { s with hub := s.hub.subscribe, phase := .session, session := .held s.hub.nextId }
  | .eventSessionNew _, true =>
    match os with
    | .macos => { s with session := s.session.spawn }
    | .linux => s
  | .eventSessionNew _, false =>
    { s with hub := dropWatch s.hub s.session, phase := .closing, session := .ended }
  | .waitForUnmount, _ => { s with phase := .ended }
  | .dropEventSession, _ =>
    match os with
    | .macos => s
    | .linux =>
      { s with
        hub := dropWatch s.hub s.session
        phase := if s.phase = .ended then .ended else .closing
        session := .ended }
  | .dropDeferred, _ => { s with phase := .ended }
  | _, _ => s

/-- The answer to a call: the hub gives out the identifiers. -/
def answer (s : SignalSys) (env : ∀ c : Supervise.Call, c.Answer) : (c : Supervise.Call) → c.Answer
  | .subscribe _ => s.hub.nextId
  | c => env c

/-- The process makes its next call. -/
def exec (os : HostOs) (s : SignalSys) (env : ∀ c : Supervise.Call, c.Answer) : Option SignalSys :=
  match s.prog with
  | .ret _ | .fail _ => none
  | .call c k => some { s.after os c (s.answer env c) with prog := k (s.answer env c) }

/-- A signal is published. -/
def publish (s : SignalSys) (signal : Int) : Option SignalSys :=
  if s.phase = .unstarted then none
  else some { s with
    hub := s.hub.publish signal
    lost := s.lost || (decide (s.hub.subscribers = []) && decide (s.phase ≠ .ended)) }

/-- A thread that waits for a signal takes one and drops its subscription, or finds its channel closed. -/
def takeSignal (hub : PubSub Int) : Watch → Option (PubSub Int)
  | .running id =>
    match hub.tryRecv id with
    | some (_, hub') => some (hub'.unsubscribe id)
    | none => if id ∈ hub.subscribers then none else some hub
  | _ => none

/-- `wait_for_mount` and `wait_for_unmount` on Linux look for a signal; they keep the subscription. -/
def poll (s : SignalSys) : Option SignalSys :=
  match s.prog, s.session with
  | .call .mountShare _, .held id | .call .waitForUnmount _, .held id =>
    (s.hub.tryRecv id).map (fun r => { s with hub := r.2 })
  | _, _ => none

/-- What may happen. -/
inductive Act where
  | exec (env : ∀ c : Supervise.Call, c.Answer)
  | publish (signal : Int)
  | forwarderTakes
  | sessionTakes
  | poll

/-- One step. -/
def step (os : HostOs) (s : SignalSys) : Act → Option SignalSys
  | .exec env => s.exec os env
  | .publish signal => s.publish signal
  | .forwarderTakes => (takeSignal s.hub s.forwarder).map (fun hub => { s with hub := hub, forwarder := .ended })
  | .sessionTakes => (takeSignal s.hub s.session).map (fun hub => { s with hub := hub, session := .ended })
  | .poll => s.poll

/-! ## What is asked of the process -/

/-- No signal was published to nobody between the start of the publisher and the end of the mount. -/
def NoneLost (s : SignalSys) : Prop := s.lost = false

/-- A signal comes between the subscription for the forwarder and the hand-over, or after the subscription for the event
session, and the thread that waits for it has not taken another one before; or the mount has ended. -/
def Timely (s : SignalSys) : Act → Prop
  | .publish _ => s.phase = .ended ∨ (s.phase = .forwarding ∧ s.forwarder ≠ .ended) ∨
      (s.phase = .session ∧ s.session ≠ .ended)
  | _ => True

instance (s : SignalSys) : (a : Act) → Decidable (s.Timely a)
  | .publish _ => inferInstanceAs (Decidable (_ ∨ _))
  | .exec _ | .forwarderTakes | .sessionTakes | .poll => inferInstanceAs (Decidable True)

end SignalSys

end Anylinuxfs
