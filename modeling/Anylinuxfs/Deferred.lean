import Mathlib.Data.List.Basic

/-!
# `Deferred`

The clean-up stack of `common-utils`: actions are added with an identifier, may be called early or removed by it, and what is
left is called in reverse order when the value is dropped. A history is a list of operations on one stack; the closures, which
are called at most once by their type (`FnOnce`) and cannot reach the stack (it is borrowed), are named by the number of their
addition.
-/

namespace Anylinuxfs

/-- `ActionID`, around a `usize`. -/
abbrev ActionId := UInt64

/-- `Deferred`, with any type in place of the boxed closures. -/
structure Deferred (α : Type) where
  actions : List (ActionId × α)
  lastId : ActionId
  deriving DecidableEq, Repr

namespace Deferred

variable {α : Type}

/-- `Deferred::new`. -/
def new : Deferred α := ⟨[], 0⟩

/-- `Deferred::add`: the action goes to the end, under the next identifier. -/
def add (d : Deferred α) (action : α) : ActionId × Deferred α :=
  (d.lastId, ⟨d.actions ++ [(d.lastId, action)], d.lastId + 1⟩)

/-- `Deferred::pop_action`: take out the first action of the identifier. -/
def popAction (d : Deferred α) (id : ActionId) : Option (α × Deferred α) :=
  match d.actions.find? (fun e => e.1 = id) with
  | some e => some (e.2, { d with actions := d.actions.eraseP (fun e => e.1 = id) })
  | none => none

/-- `Deferred::remove`. -/
def remove (d : Deferred α) (id : ActionId) : Bool × Deferred α :=
  match d.popAction id with
  | some (_, d') => (true, d')
  | none => (false, d)

/-- `Deferred::call_now`: the action that it calls, if there is one. -/
def callNow (d : Deferred α) (id : ActionId) : Option α × Deferred α :=
  match d.popAction id with
  | some (action, d') => (some action, d')
  | none => (none, d)

/-- `Deferred::remove_all`. -/
def removeAll (d : Deferred α) : Deferred α := { d with actions := [] }

/-- One turn of the loop in `Deferred::drop`: the last action, and what is left. -/
def dropNext (d : Deferred α) : Option (α × Deferred α) :=
  match d.actions.getLast? with
  | some e => some (e.2, { d with actions := d.actions.dropLast })
  | none => none

/-- The actions in the order in which a drop runs them: `drain(..).rev()`. -/
def runOrder (d : Deferred α) : List α := (d.actions.map Prod.snd).reverse

end Deferred

/-! ## Histories -/

/-- An operation of the owner of a `Deferred`. -/
inductive DeferredOp where
  | add
  | callNow (id : ActionId)
  | remove (id : ActionId)
  | removeAll
  deriving DecidableEq, Repr

/-- The operation takes the action of an identifier out of the stack. -/
def DeferredOp.takes (op : DeferredOp) (id : ActionId) : Bool :=
  match op with
  | .add => false
  | .callNow i | .remove i => i = id
  | .removeAll => true

/-- The operation takes the action of an identifier out and does not call it. -/
def DeferredOp.discards (op : DeferredOp) (id : ActionId) : Bool :=
  match op with
  | .remove i => i = id
  | .removeAll => true
  | _ => false

/-- A stack with what its owner has seen of it: the identifiers that `add` returned, and the actions that were called. -/
structure Cleanup where
  deferred : Deferred Nat
  ids : List ActionId
  ran : List Nat
  deriving DecidableEq, Repr

namespace Cleanup

/-- A stack at its beginning. -/
def new : Cleanup := ⟨.new, [], []⟩

/-- One operation. The closure of an addition is named by the number of additions before it. -/
def step (c : Cleanup) (op : DeferredOp) : Cleanup :=
  match op with
  | .add =>
    let (id, d) := c.deferred.add c.ids.length
    { c with deferred := d, ids := c.ids ++ [id] }
  | .callNow id =>
    match c.deferred.callNow id with
    | (some action, d) => { c with deferred := d, ran := c.ran ++ [action] }
    | (none, d) => { c with deferred := d }
  | .remove id => { c with deferred := (c.deferred.remove id).2 }
  | .removeAll => { c with deferred := c.deferred.removeAll }

/-- A history, from a new stack on. -/
def run (ops : List DeferredOp) : Cleanup := ops.foldl step new

/-- The actions that a history and the drop after it have called, in order. -/
def finish (ops : List DeferredOp) : List Nat := (run ops).ran ++ (run ops).deferred.runOrder

end Cleanup

/-! ## What is asked of a history -/

/-- The action of addition `n` is pending: after its addition nothing took its identifier out. -/
def DeferredPending (ops : List DeferredOp) (n : Nat) : Prop :=
  ∃ id pre post, (Cleanup.run ops).ids[n]? = some id ∧ ops = pre ++ .add :: post ∧ pre.count .add = n ∧
    ∀ op ∈ post, op.takes id = false

/-- The action of addition `n` was removed while it was pending. -/
def DeferredRemoved (ops : List DeferredOp) (n : Nat) : Prop :=
  ∃ id pre op post, (Cleanup.run ops).ids[n]? = some id ∧ ops = pre ++ op :: post ∧ DeferredPending pre n ∧
    op.discards id = true

/-- The guarantees of the stack over a history. -/
structure DeferredLaw (ops : List DeferredOp) : Prop where
  /-- No action is called twice. -/
  atMostOnce : (Cleanup.finish ops).Nodup
  /-- What is called was added. -/
  added : ∀ n ∈ Cleanup.finish ops, n < ops.count .add
  /-- An added action is called unless it was removed while it was pending. -/
  called_iff : ∀ n < ops.count .add, n ∈ Cleanup.finish ops ↔ ¬DeferredRemoved ops n
  /-- `add` never returns an identifier again. -/
  idsDistinct : (Cleanup.run ops).ids.Nodup
  /-- `call_now` calls the pending action of the identifier at once, and nothing else. -/
  callNow_pending : ∀ pre id post n, ops = pre ++ .callNow id :: post → DeferredPending pre n →
    (Cleanup.run pre).ids[n]? = some id → (Cleanup.run (pre ++ [.callNow id])).ran = (Cleanup.run pre).ran ++ [n]
  /-- `call_now` calls nothing when no pending action has the identifier. -/
  callNow_unknown : ∀ pre id post, ops = pre ++ .callNow id :: post →
    (∀ n, DeferredPending pre n → (Cleanup.run pre).ids[n]? ≠ some id) →
    (Cleanup.run (pre ++ [.callNow id])).ran = (Cleanup.run pre).ran
  /-- The other operations call nothing. -/
  quiet : ∀ pre op post, ops = pre ++ op :: post → (∀ id, op ≠ .callNow id) →
    (Cleanup.run (pre ++ [op])).ran = (Cleanup.run pre).ran
  /-- A drop calls the pending actions in the reverse order of their addition. -/
  drop_reverse : (Cleanup.run ops).deferred.runOrder.Pairwise (· > ·)
  drop_pending : ∀ n, n ∈ (Cleanup.run ops).deferred.runOrder ↔ DeferredPending ops n

end Anylinuxfs
