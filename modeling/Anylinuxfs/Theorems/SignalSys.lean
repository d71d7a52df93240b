import Anylinuxfs.SignalSys

/-!
# Which signals are heard

A signal is lost before the process has subscribed for the forwarder, between its unsubscription and the subscription for the
event session, and after a thread has taken a first signal and gone. A signal that comes at any other moment of the mount finds a
subscriber.
-/

namespace Anylinuxfs
namespace SignalSys

open Transition (Reach Any exists_reach)

/-- What holds in every state: a phase with somebody to tell has a subscription, the two subscriptions are different, and the
one of the phase is known to the hub unless its thread has gone. -/
structure Inv (s : SignalSys) : Prop where
  forwarderFresh : ∀ id, s.forwarder.id? = some id → id < s.hub.nextId
  sessionFresh : ∀ id, s.session.id? = some id → id < s.hub.nextId
  distinct : ∀ id, s.forwarder.id? = some id → s.session.id? ≠ some id
  forwarding : s.phase = .forwarding → s.forwarder ≠ .ended → ∃ id ∈ s.hub.subscribers, s.forwarder.id? = some id
  session : s.phase = .session → s.session ≠ .ended → ∃ id ∈ s.hub.subscribers, s.session.id? = some id
  noneLost : s.NoneLost

variable {s : SignalSys}

/-! ## The hub -/

@[simp] theorem mem_unsubscribe {hub : PubSub Int} {id i : Nat} :
    i ∈ (hub.unsubscribe id).subscribers ↔ i ∈ hub.subscribers ∧ i ≠ id := by
  simp [PubSub.unsubscribe]

@[simp] theorem nextId_dropWatch {hub : PubSub Int} {w : Watch} : (dropWatch hub w).nextId = hub.nextId := by
  simp only [dropWatch]
  cases w.id? <;> rfl

theorem nextId_mem_subscribe {hub : PubSub Int} : hub.nextId ∈ hub.subscribe.subscribers :=
  List.mem_append_right _ (by simp)

theorem tryRecv_subscribers {hub hub' : PubSub Int} {id : Nat} {msg : Int} (h : hub.tryRecv id = some (msg, hub')) :
    hub'.subscribers = hub.subscribers ∧ hub'.nextId = hub.nextId := by
  simp only [PubSub.tryRecv] at h
  split at h
  · cases h
    exact ⟨rfl, rfl⟩
  · cases h

/-- A thread that has taken a signal leaves every other subscription. -/
theorem takeSignal_spec {hub hub' : PubSub Int} {w : Watch} (h : takeSignal hub w = some hub') :
    hub'.nextId = hub.nextId ∧ ∀ id ∈ hub.subscribers, w.id? ≠ some id → id ∈ hub'.subscribers := by
  cases w with
  | none | held _ | ended => cases h
  | running id =>
    simp only [takeSignal] at h
    cases hr : hub.tryRecv id with
    | some r =>
      obtain ⟨hsub, hnext⟩ := tryRecv_subscribers hr
      rw [hr] at h
      cases h
      refine ⟨hnext, fun i hi hne => ?_⟩
      rw [mem_unsubscribe, hsub]
      exact ⟨hi, fun hid => hne (by rw [hid]; rfl)⟩
    | none =>
      rw [hr] at h
      dsimp only at h
      split at h
      · cases h
      · cases h
        exact ⟨rfl, fun i hi _ => hi⟩

@[simp] theorem id?_spawn {w : Watch} : w.spawn.id? = w.id? := by
  cases w <;> rfl

@[simp] theorem spawn_eq_ended {w : Watch} : w.spawn = .ended ↔ w = .ended := by
  cases w <;> simp [Watch.spawn]

/-! ## Steps of the process -/

/-- Where nobody has to be told, only the identifiers matter. -/
theorem Inv.quiet (h : s.Inv) {s' : SignalSys} (hnext : s'.hub.nextId = s.hub.nextId)
    (hf : s'.forwarder = s.forwarder ∨ s'.forwarder = .ended) (hs : s'.session = s.session ∨ s'.session = .ended)
    (hphase : s'.phase ≠ .forwarding ∧ s'.phase ≠ .session) (hlost : s'.lost = s.lost) : s'.Inv := by
  have hf' : ∀ id, s'.forwarder.id? = some id → s.forwarder.id? = some id := by
    intro id hid
    rcases hf with hf | hf
    · rwa [hf] at hid
    · rw [hf] at hid
      cases hid
  have hs' : ∀ id, s'.session.id? = some id → s.session.id? = some id := by
    intro id hid
    rcases hs with hs | hs
    · rwa [hs] at hid
    · rw [hs] at hid
      cases hid
  refine ⟨fun id hid => ?_, fun id hid => ?_, fun id hid hid' => ?_, fun hp => absurd hp hphase.1,
    fun hp => absurd hp hphase.2, hlost.trans h.noneLost⟩
  · rw [hnext]
    exact h.forwarderFresh id (hf' id hid)
  · rw [hnext]
    exact h.sessionFresh id (hs' id hid)
  · exact h.distinct id (hf' id hid) (hs' id hid')

/-- A new subscription has an identifier that nobody else has. -/
theorem Inv.subscribeForwarder (h : s.Inv) :
    Inv { s with hub := s.hub.subscribe, phase := .forwarding, forwarder := .held s.hub.nextId } := by
  refine ⟨fun id hid => ?_, fun id hid => ?_, fun id hid hid' => ?_, fun _ _ => ⟨_, nextId_mem_subscribe, rfl⟩, nofun, h.noneLost⟩
  · cases hid
    exact Nat.lt_succ_self _
  · exact Nat.lt_succ_of_lt (h.sessionFresh id hid)
  · cases hid
    exact absurd (h.sessionFresh _ hid') (Nat.lt_irrefl _)

theorem Inv.subscribeSession (h : s.Inv) :
    Inv { s with hub := s.hub.subscribe, phase := .session, session := .held s.hub.nextId } := by
  refine ⟨fun id hid => ?_, fun id hid => ?_, fun id hid hid' => ?_, nofun, fun _ _ => ⟨_, nextId_mem_subscribe, rfl⟩, h.noneLost⟩
  · exact Nat.lt_succ_of_lt (h.forwarderFresh id hid)
  · cases hid
    exact Nat.lt_succ_self _
  · cases hid'
    exact absurd (h.forwarderFresh _ hid) (Nat.lt_irrefl _)

theorem Inv.spawnForwarder (h : s.Inv) : Inv { s with forwarder := s.forwarder.spawn } := by
  refine { h with forwarderFresh := ?_, distinct := ?_, forwarding := ?_ }
  · simpa using h.forwarderFresh
  · simpa using h.distinct
  · simpa using h.forwarding

theorem Inv.spawnSession (h : s.Inv) : Inv { s with session := s.session.spawn } := by
  refine { h with sessionFresh := ?_, distinct := ?_, session := ?_ }
  · simpa using h.sessionFresh
  · simpa using h.distinct
  · simpa using h.session

theorem Inv.after (h : s.Inv) (os : HostOs) (c : Supervise.Call) (r : c.Answer) : (s.after os c r).Inv := by
  cases c with
  | startSignalPublisher =>
    cases r with
    | true => exact h.quiet rfl (.inl rfl) (.inl rfl) ⟨nofun, nofun⟩ rfl
    | false => exact h
  | subscribe holder =>
    cases holder with
    | stdinForwarder => exact h.subscribeForwarder
    | eventSession => exact h.subscribeSession
  | stdinForwarderNew id =>
    cases r with
    | true => exact h.spawnForwarder
    | false => exact h.quiet nextId_dropWatch (.inr rfl) (.inl rfl) ⟨nofun, nofun⟩ rfl
  | unsubscribe id => exact h.quiet rfl (.inl rfl) (.inl rfl) ⟨nofun, nofun⟩ rfl
  | eventSessionNew id =>
    cases r with
    | true =>
      cases os with
      | macos => exact h.spawnSession
      | linux => exact h
    | false => exact h.quiet nextId_dropWatch (.inl rfl) (.inr rfl) ⟨nofun, nofun⟩ rfl
  | waitForUnmount => exact h.quiet rfl (.inl rfl) (.inl rfl) ⟨nofun, nofun⟩ rfl
  | dropEventSession =>
    cases os with
    | macos => exact h
    | linux =>
      refine h.quiet nextId_dropWatch (.inl rfl) (.inr rfl) ?_ rfl
      by_cases hp : s.phase = .ended <;> simp [SignalSys.after, hp]
  | dropDeferred => exact h.quiet rfl (.inl rfl) (.inl rfl) ⟨nofun, nofun⟩ rfl
  | stage | setsid | fork | recvPrompt | waitForNfsServer | mountShare | writeToPipe | closePipe | waitpid => exact h

/-- The program of the process is not part of what holds. -/
theorem Inv.setProg (h : s.Inv) (prog : Supervise.Proc Unit) : Inv { s with prog := prog } := { h with }

/-! ## Steps of the threads -/

theorem Inv.forwarderTakes (h : s.Inv) {hub : PubSub Int} (ht : takeSignal s.hub s.forwarder = some hub) :
    Inv { s with hub := hub, forwarder := .ended } := by
  obtain ⟨hnext, hsub⟩ := takeSignal_spec ht
  refine ⟨nofun, fun id hid => ?_, nofun, fun _ hf => absurd rfl hf, fun hp hs => ?_, h.noneLost⟩
  · exact lt_of_lt_of_eq (h.sessionFresh id hid) hnext.symm
  · obtain ⟨id, hid, hsession⟩ := h.session hp hs
    exact ⟨id, hsub id hid (fun hf => h.distinct id hf hsession), hsession⟩

theorem Inv.sessionTakes (h : s.Inv) {hub : PubSub Int} (ht : takeSignal s.hub s.session = some hub) :
    Inv { s with hub := hub, session := .ended } := by
  obtain ⟨hnext, hsub⟩ := takeSignal_spec ht
  refine ⟨fun id hid => ?_, nofun, fun _ _ => nofun, fun hp hf => ?_, fun _ hs => absurd rfl hs, h.noneLost⟩
  · exact lt_of_lt_of_eq (h.forwarderFresh id hid) hnext.symm
  · obtain ⟨id, hid, hforwarder⟩ := h.forwarding hp hf
    exact ⟨id, hsub id hid (h.distinct id hforwarder), hforwarder⟩

/-- A hub with the same subscribers will do. -/
theorem Inv.sameSubscribers (h : s.Inv) {hub : PubSub Int} (hsub : hub.subscribers = s.hub.subscribers)
    (hnext : hub.nextId = s.hub.nextId) : Inv { s with hub := hub } := by
  refine { h with forwarderFresh := ?_, sessionFresh := ?_, forwarding := ?_, session := ?_ }
  · simpa [hnext] using h.forwarderFresh
  · simpa [hnext] using h.sessionFresh
  · simpa [hsub] using h.forwarding
  · simpa [hsub] using h.session

theorem Inv.poll (h : s.Inv) {s' : SignalSys} (hs : s.poll = some s') : s'.Inv := by
  have hrecv : ∀ id, (s.hub.tryRecv id).map (fun r => { s with hub := r.2 }) = some s' → s'.Inv := by
    intro id hid
    obtain ⟨⟨msg, hub⟩, hr, rfl⟩ := Option.map_eq_some_iff.1 hid
    exact h.sameSubscribers (tryRecv_subscribers hr).1 (tryRecv_subscribers hr).2
  simp only [SignalSys.poll] at hs
  split at hs
  · exact hrecv _ hs
  · exact hrecv _ hs
  · cases hs

/-- A signal that comes in time finds a subscriber. -/
theorem Inv.publish (h : s.Inv) {signal : Int} (ht : s.Timely (.publish signal)) {s' : SignalSys}
    (hs : s.publish signal = some s') : s'.Inv := by
  have hheard : s.phase ≠ .ended → s.hub.subscribers ≠ [] := by
    intro hp
    rcases ht with hended | ⟨hp, hf⟩ | ⟨hp, hf⟩
    · exact absurd hended hp
    · obtain ⟨id, hid, -⟩ := h.forwarding hp hf
      exact List.ne_nil_of_mem hid
    · obtain ⟨id, hid, -⟩ := h.session hp hf
      exact List.ne_nil_of_mem hid
  have hlost : (s.lost || (decide (s.hub.subscribers = []) && decide (s.phase ≠ .ended))) = false := by
    have hl : s.lost = false := h.noneLost
    by_cases hp : s.phase = .ended
    · simp [hl, hp]
    · simp [hl, hheard hp]
  simp only [SignalSys.publish] at hs
  split at hs
  · cases hs
  · cases hs
    exact { h with noneLost := hlost }

theorem Inv.step (h : s.Inv) {os : HostOs} {a : Act} {s' : SignalSys} (ht : s.Timely a) (hs : s.step os a = some s') :
    s'.Inv := by
  cases a with
  | exec env =>
    simp only [SignalSys.step, exec] at hs
    split at hs
    · cases hs
    · cases hs
    · cases hs
      exact (h.after os _ _).setProg _
  | publish signal => exact h.publish ht hs
  | forwarderTakes =>
    obtain ⟨hub, htake, rfl⟩ := Option.map_eq_some_iff.1 hs
    exact h.forwarderTakes htake
  | sessionTakes =>
    obtain ⟨hub, htake, rfl⟩ := Option.map_eq_some_iff.1 hs
    exact h.sessionTakes htake
  | poll => exact h.poll hs

theorem Inv.init (callbacks : Nat) : (init callbacks).Inv := ⟨nofun, nofun, nofun, nofun, nofun, rfl⟩

/-- In every run in which the signals come in time, no signal is lost. -/
theorem noneLost_of_reach (os : HostOs) (callbacks : Nat) (s : SignalSys)
    (h : Reach (step os) Timely (init callbacks) s) : s.NoneLost :=
  (h.invariant Inv (Inv.init callbacks) (fun _ _ _ hinv ht hs => hinv.step ht hs)).noneLost

/-- The process makes so many calls, and all goes well. -/
def calls (n : Nat) : List Act := List.replicate n (.exec (Supervise.smooth (.exited 0 (by decide))))

/-- A signal to the forwarder, which takes it, and another one to the event session on Linux. -/
theorem noneLost_two_signals : ∃ s, Reach (step .linux) Timely (init 0) s ∧
    (s.phase = .session ∧ s.hub.pending = [(1, 15)]) ∧ s.NoneLost := by
  obtain ⟨s, hs, hq⟩ := exists_reach (step .linux) Timely (fun s => s.phase = .session ∧ s.hub.pending = [(1, 15)]) (init 0)
    (calls 19 ++ [.publish 2, .forwarderTakes] ++ calls 4 ++ [.publish 15]) (by decide)
  exact ⟨s, hs, hq, noneLost_of_reach .linux 0 s hs⟩

/-- A signal right after the start of the publisher is lost. -/
theorem noneLost_false : ¬ ∀ os callbacks s, Reach (step os) Any (init callbacks) s → s.NoneLost := by
  intro h
  obtain ⟨s, hs, hq⟩ := exists_reach (step .linux) Any (fun s => s.phase = .starting ∧ ¬ s.lost = false) (init 0)
    (calls 12 ++ [.publish 2]) (by decide)
  exact hq.2 (h .linux 0 s hs)

end SignalSys
end Anylinuxfs
