import Anylinuxfs.Lemmas.PubSub

/-!
# The publish / subscribe hub

The guarantees of the hub over a run (`PubSubLaw`) hold exactly as long as the identifiers, which are drawn from an
`AtomicUsize`, have not come around.
-/

namespace Anylinuxfs

open PubSubInner Transition

section

variable {T : Type} {ops : List (PubSubOp T)} {s : PubSubInner T}

/-- Where a run inserts a subscriber, it had not been inserted before. -/
theorem interval_of_insert {pre rest : List (PubSubOp T)} {n : Nat} {id : UInt64}
    (h : Transition.run PubSubInner.step .new (pre ++ .insert n :: rest) = some s)
    (hle : pre.countP PubSubOp.draws ≤ 2 ^ 64) (hid : id = UInt64.ofNat n) : interval n id pre = .before := by
  rw [run_append] at h
  obtain ⟨s₁, hs₁, hrest⟩ := Option.bind_eq_some_iff.1 h
  obtain ⟨s₂, hs₂, -⟩ := Option.bind_eq_some_iff.1 hrest
  have hinv := inv_of_run hs₁ hle
  simp only [PubSubInner.step] at hs₂
  split at hs₂
  · next sub hn =>
    obtain ⟨hstage, -⟩ := Option.ite_none_right_eq_some.1 hs₂
    rw [hid, ← hinv.wellFormed.drawnId_eq hn]
    exact hinv.interval_of_drawn hn hstage
  · cases hs₂

/-- What a subscriber has received, from its history. -/
theorem inbox_of_split (h : Transition.run PubSubInner.step .new ops = some s) (hle : ops.countP PubSubOp.draws ≤ 2 ^ 64)
    {n : Nat} {sub : Subscription T} {pre mid post : List (PubSubOp T)} (hn : s.subs[n]? = some sub) (hstage : sub.stage ≠ .dropped)
    (hops : ops = pre ++ .insert n :: (mid ++ post)) (hmid : ∀ op ∈ mid, op.removes n sub.drawnId = false)
    (hpost : ∀ op ∈ post.head?, op.removes n sub.drawnId = true) : sub.inbox = PubSubOp.published mid := by
  have hinv := inv_of_run h hle
  have ht := hinv.tracks n sub hn
  subst hops
  have hpre : pre.countP PubSubOp.draws ≤ 2 ^ 64 := by
    rw [List.countP_append] at hle
    omega
  rw [interval_split (interval_of_insert h hpre (hinv.wellFormed.drawnId_eq hn)) hmid hpost] at ht
  split at ht
  · exact ht.2.2.2
  · exact ht.2.2.2 hstage

/-- An operation that removes a subscriber, or drops its receiver, leaves the others as they are. -/
theorem frame_of_removes (hinv : Inv ops s) (hle : s.subs.length ≤ 2 ^ 64) {n : Nat} {sub : Subscription T} {op : PubSubOp T}
    {s' : PubSubInner T} (hn : s.subs[n]? = some sub) (hs : s.step op = some s')
    (hop : op.removes n sub.drawnId = true ∨ op = .dropReceiver n) {m : Nat} (hm : m ≠ n) :
    s'.subs[m]? = s.subs[m]? ∧ (s'.Registered m ↔ s.Registered m) := by
  rcases hop with hop | rfl
  · cases op with
    | fetchAdd | insert k | publish msg | dropReceiver k | recv k => cases hop
    | unsubscribe id =>
      cases hs
      rw [of_decide_eq_true hop]
      exact ⟨rfl, hinv.wellFormed.registered_unsubscribe_of_ne hle hn hm⟩
    | guardUnsubscribe k =>
      obtain rfl : k = n := of_decide_eq_true hop
      simp only [PubSubInner.step, hn] at hs
      obtain ⟨hstage, heq⟩ := Option.ite_none_right_eq_some.1 hs
      cases heq
      obtain ⟨-, hsubs, -, hother⟩ := hinv.guardUnsubscribe_spec hle hn hstage
      rw [hsubs]
      exact ⟨List.getElem?_set_ne (Ne.symm hm), hother m hm⟩
    | dropUnsubscribe k =>
      obtain rfl : k = n := of_decide_eq_true hop
      simp only [PubSubInner.step, hn] at hs
      obtain ⟨hstage, heq⟩ := Option.ite_none_right_eq_some.1 hs
      cases heq
      obtain ⟨-, hsubs, -, hother⟩ := hinv.guardUnsubscribe_spec hle hn hstage
      rw [setSub, hsubs, List.set_set]
      exact ⟨List.getElem?_set_ne (Ne.symm hm), hother m hm⟩
  · simp only [PubSubInner.step, hn] at hs
    obtain ⟨-, heq⟩ := Option.ite_none_right_eq_some.1 hs
    cases heq
    exact ⟨List.getElem?_set_ne (Ne.symm hm), Iff.rfl⟩

/-- The guarantees, until the counter has come around. -/
theorem pubSubLaw_of_count (h : Transition.run PubSubInner.step .new ops = some s)
    (hle : ops.countP PubSubOp.draws ≤ 2 ^ 64) : PubSubLaw ops s where
  delivery := by
    intro n sub pre mid post hn hstage hops hmid hpost
    exact inbox_of_split h hle hn hstage hops hmid hpost
  nothing_before := by
    intro n sub hn hnot
    have ht := (inv_of_run h hle).tracks n sub hn
    rw [interval_of_notMem hnot] at ht
    exact ht.2.2
  idsDistinct := by
    rw [(drawnIds_of_run h).1]
    exact Counter.nodup_drawn_iff.2 hle
  frame := by
    intro n sub op s' hn hs hop m hm
    have hinv := inv_of_run h hle
    exact frame_of_removes hinv (hinv.length_eq ▸ hle) hn hs hop hm

end

/-- The guarantees of the hub hold after exactly the runs with no more subscriptions than there are identifiers. -/
theorem pubSubLaw_iff {T : Type} {ops : List (PubSubOp T)} {s : PubSubInner T}
    (h : Transition.run PubSubInner.step .new ops = some s) : PubSubLaw ops s ↔ ops.countP PubSubOp.draws ≤ 2 ^ 64 := by
  constructor
  · intro hlaw
    have hids := hlaw.idsDistinct
    rw [(drawnIds_of_run h).1] at hids
    exact Counter.nodup_drawn_iff.1 hids
  · intro hle
    exact pubSubLaw_of_count h hle

/-- Two subscribers, of which the first is unsubscribed by its identifier between two messages and the second is inserted after
the first message. -/
theorem pubSubLaw_twoSubscribers :
    ∃ s, Transition.run PubSubInner.step (.new : PubSubInner Nat)
        [.fetchAdd, .fetchAdd, .insert 0, .publish 1, .insert 1, .publish 2, .recv 0, .unsubscribe 0, .publish 3] = some s ∧
      PubSubLaw [.fetchAdd, .fetchAdd, .insert 0, .publish 1, .insert 1, .publish 2, .recv 0, .unsubscribe 0, .publish 3] s ∧
      s.subs.map Subscription.inbox = [[1, 2], [2, 3]] :=
  ⟨_, rfl, (pubSubLaw_iff rfl).2 (by decide), by decide⟩

/-- Subscribers that come and go, one at a time. -/
def passers : Nat → List (PubSubOp Nat)
  | 0 => []
  | n + 1 => passers n ++ [.fetchAdd, .insert n, .dropUnsubscribe n, .dropReceiver n]

theorem run_passers (n : Nat) : ∃ s, Transition.run PubSubInner.step .new (passers n) = some s ∧ s.subs.length = n := by
  induction n with
  | zero => exact ⟨_, rfl, rfl⟩
  | succ n ih =>
    obtain ⟨s, hs, hlen⟩ := ih
    rw [passers, run_append, hs]
    simp [Transition.run, PubSubInner.step, ← hlen, setSub, guardUnsubscribe, unsubscribe]

theorem countP_passers (n : Nat) : (passers n).countP PubSubOp.draws = n := by
  induction n with
  | zero => rfl
  | succ n ih =>
    rw [passers, List.countP_append, ih]
    rfl

/-- When the counter has come around, a subscriber gets the identifier of the first one again. -/
theorem pubSubLaw_false :
    ∃ s, Transition.run PubSubInner.step .new (passers (2 ^ 64 + 1)) = some s ∧ ¬PubSubLaw (passers (2 ^ 64 + 1)) s := by
  obtain ⟨s, hs, -⟩ := run_passers (2 ^ 64 + 1)
  refine ⟨s, hs, fun hlaw => ?_⟩
  have hids := hlaw.idsDistinct
  rw [(drawnIds_of_run hs).1, countP_passers, Counter.nodup_drawn_iff] at hids
  exact Nat.not_succ_le_self _ hids

end Anylinuxfs
