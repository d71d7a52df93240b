import Anylinuxfs.Lib.Reach

/-!
# `PubSub`

The publish / subscribe hub: a counter for the identifiers, a map from identifiers to the sending ends of channels behind a
mutex, and a guard (`Subscription`) that holds the receiving end. The clones of a hub share all of it, so a run is one sequence
of the atomic operations of all threads. A subscriber is named by the number of its `fetch_add`.

A message is cloned for each subscriber; clones are taken to be equal to the message and not to panic. The map is visited in the
order of a list; every entry of it sends to a channel of its own, so the order of the visits is of no matter.
-/

namespace Anylinuxfs

/-- Where a subscriber is: the identifier was drawn and the map is still without it, the guard is in use, the guard is being
dropped and has unsubscribed, the receiver is gone. -/
inductive SubscriptionStage where
  | drawn | live | dropping | dropped
  deriving DecidableEq, Repr

/-- `Subscription`: the identifier that was drawn, the `id` of the guard, and its channel with what `recv` has returned and what is
still in it. -/
structure Subscription (T : Type) where
  drawnId : UInt64
  id : Option UInt64
  stage : SubscriptionStage
  received : List T
  queued : List T
  deriving DecidableEq, Repr

/-- What has reached the channel of a subscriber. -/
def Subscription.inbox {T : Type} (sub : Subscription T) : List T := sub.received ++ sub.queued

/-- `PubSubInner`: `next_id`, the map from identifiers to the sending ends, each named by its subscriber, and the subscribers. -/
structure PubSubInner (T : Type) where
  nextId : UInt64
  subscribers : List (UInt64 × Nat)
  subs : List (Subscription T)
  deriving DecidableEq, Repr

/-- The atomic operations. `subscribe` is `fetchAdd` and, later, `insert`; the drop of a guard is `dropUnsubscribe` and, later,
the drop of its receiver. -/
inductive PubSubOp (T : Type) where
  | fetchAdd
  | insert (n : Nat)
  | publish (msg : T)
  | unsubscribe (id : UInt64)
  | guardUnsubscribe (n : Nat)
  | dropUnsubscribe (n : Nat)
  | dropReceiver (n : Nat)
  | recv (n : Nat)
  deriving DecidableEq, Repr

namespace PubSubInner

variable {T : Type}

/-- `PubSub::new`. -/
def new : PubSubInner T := ⟨0, [], []⟩

/-- Change a subscriber. -/
def setSub (s : PubSubInner T) (n : Nat) (sub : Subscription T) : PubSubInner T := { s with subs := s.subs.set n sub }

/-- `HashMap::remove`. -/
def removeKey (subscribers : List (UInt64 × Nat)) (id : UInt64) : List (UInt64 × Nat) :=
  subscribers.filter fun e => e.1 ≠ id

/-- `HashMap::insert`, which drops the sending end that was there. -/
def insertKey (subscribers : List (UInt64 × Nat)) (id : UInt64) (n : Nat) : List (UInt64 × Nat) :=
  removeKey subscribers id ++ [(id, n)]

/-- `Sender::send`, which fails when the receiver is gone. -/
def send (subs : List (Subscription T)) (n : Nat) (msg : T) : Option (List (Subscription T)) :=
  match subs[n]? with
  | some sub => if sub.stage = .dropped then none else some (subs.set n { sub with queued := sub.queued ++ [msg] })
  | none => none

/-- The `retain` of `publish`: the entries that are kept, and the channels. -/
def retain (msg : T) : List (UInt64 × Nat) → List (Subscription T) → List (UInt64 × Nat) × List (Subscription T)
  | [], subs => ([], subs)
  | e :: rest, subs =>
    match send subs e.2 msg with
    | some subs => let r := retain msg rest subs; (e :: r.1, r.2)
    | none => retain msg rest subs

/-- `PubSub::unsubscribe`. -/
def unsubscribe (s : PubSubInner T) (id : UInt64) : PubSubInner T := { s with subscribers := removeKey s.subscribers id }

/-- `Subscription::unsubscribe`, for the subscriber `n`: the guard's `id` is taken, and then unsubscribed. -/
def guardUnsubscribe (s : PubSubInner T) (n : Nat) (sub : Subscription T) : PubSubInner T :=
  match sub.id with
  | some id => (s.setSub n { sub with id := none }).unsubscribe id
  | none => s

/-- One atomic operation, if the thread of the subscriber is there. -/
def step (s : PubSubInner T) : PubSubOp T → Option (PubSubInner T)
  | .fetchAdd => some { s with nextId := s.nextId + 1, subs := s.subs ++ [⟨s.nextId, none, .drawn, [], []⟩] }
  | .insert n =>
    match s.subs[n]? with
    | some sub =>
      if sub.stage = .drawn then
        some { s.setSub n { sub with id := some sub.drawnId, stage := .live } with
          subscribers := insertKey s.subscribers sub.drawnId n }
      else none
    | none => none
  | .publish msg =>
    let r := retain msg s.subscribers s.subs
    some { s with subscribers := r.1, subs := r.2 }
  | .unsubscribe id => some (s.unsubscribe id)
  | .guardUnsubscribe n =>
    match s.subs[n]? with
    | some sub => if sub.stage = .live then some (s.guardUnsubscribe n sub) else none
    | none => none
  | .dropUnsubscribe n =>
    match s.subs[n]? with
    | some sub =>
      if sub.stage = .live then
        some ((s.guardUnsubscribe n sub).setSub n { sub with id := none, stage := .dropping })
      else none
    | none => none
  | .dropReceiver n =>
    match s.subs[n]? with
    | some sub => if sub.stage = .dropping then some (s.setSub n { sub with stage := .dropped, queued := [] }) else none
    | none => none
  | .recv n =>
    match s.subs[n]? with
    | some sub =>
      match sub.stage, sub.queued with
      | .live, msg :: rest => some (s.setSub n { sub with received := sub.received ++ [msg], queued := rest })
      | _, _ => none
    | none => none

end PubSubInner

/-! ## What is asked of a run -/

/-- The operation draws an identifier. -/
def PubSubOp.draws {T : Type} : PubSubOp T → Bool
  | .fetchAdd => true
  | _ => false

/-- The operation unsubscribes the subscriber `n`, whose identifier is `id`. -/
def PubSubOp.removes {T : Type} (op : PubSubOp T) (n : Nat) (id : UInt64) : Bool :=
  match op with
  | .unsubscribe i => i = id
  | .guardUnsubscribe m | .dropUnsubscribe m => m = n
  | _ => false

/-- The messages that are published. -/
def PubSubOp.published {T : Type} (ops : List (PubSubOp T)) : List T :=
  ops.filterMap fun
    | .publish msg => some msg
    | _ => none

/-- The subscriber is in the map. -/
def PubSubInner.Registered {T : Type} (s : PubSubInner T) (n : Nat) : Prop := ∃ id, (id, n) ∈ s.subscribers

/-- The guarantees of the hub over a run. -/
structure PubSubLaw {T : Type} (ops : List (PubSubOp T)) (s : PubSubInner T) : Prop where
  /-- A subscriber that is not dropped has received what was published from its insertion to what unsubscribed it first. -/
  delivery : ∀ n sub pre mid post, s.subs[n]? = some sub → sub.stage ≠ .dropped → ops = pre ++ .insert n :: (mid ++ post) →
    (∀ op ∈ mid, op.removes n sub.drawnId = false) → (∀ op ∈ post.head?, op.removes n sub.drawnId = true) →
      sub.inbox = PubSubOp.published mid
  /-- Before its insertion a subscriber receives nothing. -/
  nothing_before : ∀ n sub, s.subs[n]? = some sub → .insert n ∉ ops → sub.inbox = []
  /-- No identifier is drawn again. -/
  idsDistinct : (s.subs.map Subscription.drawnId).Nodup
  /-- What removes a subscriber, or drops its receiver, leaves the others as they are. -/
  frame : ∀ n sub op s', s.subs[n]? = some sub → s.step op = some s' →
    op.removes n sub.drawnId = true ∨ op = .dropReceiver n →
      ∀ m, m ≠ n → s'.subs[m]? = s.subs[m]? ∧ (s'.Registered m ↔ s.Registered m)

end Anylinuxfs
