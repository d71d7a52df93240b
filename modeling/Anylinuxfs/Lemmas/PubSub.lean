import Anylinuxfs.Lib.Counter
import Anylinuxfs.PubSub

/-!
# Runs of the hub

What a history says of one subscriber (`Interval`): it is not inserted yet, it is subscribed and was sent so much, or it was
unsubscribed after so much. The state of the hub tracks that for every subscriber, one operation after the other, as long as the
identifiers have not come around.
-/

namespace Anylinuxfs

open Transition

variable {T : Type}

/-! ## Histories of one subscriber -/

/-- What a history says of a subscriber, with the messages that were published while it was subscribed. -/
inductive Interval (T : Type) where
  | before
  | on (msgs : List T)
  | off (msgs : List T)

/-- One operation, for the subscriber `n` with the identifier `id`. -/
def Interval.step (n : Nat) (id : UInt64) : Interval T → PubSubOp T → Interval T
  | .before, .insert m => if m = n then .on [] else .before
  | .before, _ => .before
  | .on msgs, .publish msg => .on (msgs ++ [msg])
  | .on msgs, op => if op.removes n id then .off msgs else .on msgs
  | .off msgs, _ => .off msgs

/-- What a history says of the subscriber `n` with the identifier `id`. -/
def interval (n : Nat) (id : UInt64) (ops : List (PubSubOp T)) : Interval T := ops.foldl (Interval.step n id) .before

theorem interval_snoc (n : Nat) (id : UInt64) (ops : List (PubSubOp T)) (op : PubSubOp T) :
    interval n id (ops ++ [op]) = (interval n id ops).step n id op := by
  rw [interval, List.foldl_append]
  rfl

theorem interval_of_notMem {n : Nat} {id : UInt64} {ops : List (PubSubOp T)} (h : .insert n ∉ ops) :
    interval n id ops = .before := by
  induction ops using List.reverseRecOn with
  | nil => rfl
  | append_singleton ops op ih =>
    rw [List.mem_append, List.mem_singleton, not_or] at h
    rw [interval_snoc, ih h.1]
    cases op with
    | insert m => exact if_neg fun hm => h.2 (by rw [hm])
    | _ => rfl

theorem foldl_off (n : Nat) (id : UInt64) (msgs : List T) (ops : List (PubSubOp T)) :
    ops.foldl (Interval.step n id) (.off msgs) = .off msgs := by
  induction ops with
  | nil => rfl
  | cons op ops ih => exact ih

/-- While nothing unsubscribes it, a subscriber is sent what is published. -/
theorem foldl_on {n : Nat} {id : UInt64} {msgs : List T} {ops : List (PubSubOp T)} (h : ∀ op ∈ ops, op.removes n id = false) :
    ops.foldl (Interval.step n id) (.on msgs) = .on (msgs ++ PubSubOp.published ops) := by
  induction ops generalizing msgs with
  | nil => exact congrArg Interval.on (List.append_nil msgs).symm
  | cons op ops ih =>
    have hop := h op List.mem_cons_self
    have hrest : ∀ op ∈ ops, op.removes n id = false := fun o ho => h o (List.mem_cons_of_mem op ho)
    rw [List.foldl_cons]
    cases op with
    | publish msg =>
      rw [Interval.step, ih hrest]
      exact congrArg Interval.on (List.append_assoc msgs [msg] _)
    | _ =>
      rw [Interval.step, if_neg (ne_true_of_eq_false hop), ih hrest]
      · rfl
      · nofun

/-- A history in which a subscriber is inserted, and unsubscribed or not. -/
theorem interval_split {n : Nat} {id : UInt64} {pre mid post : List (PubSubOp T)} (hpre : interval n id pre = .before)
    (hmid : ∀ op ∈ mid, op.removes n id = false) (hpost : ∀ op ∈ post.head?, op.removes n id = true) :
    interval n id (pre ++ .insert n :: (mid ++ post)) =
      if post = [] then .on (PubSubOp.published mid) else .off (PubSubOp.published mid) := by
  rw [interval, List.foldl_append]
  change (PubSubOp.insert n :: (mid ++ post)).foldl (Interval.step n id) (interval n id pre) = _
  rw [hpre, List.foldl_cons, Interval.step, if_pos rfl, List.foldl_append, foldl_on hmid, List.nil_append]
  cases post with
  | nil => rfl
  | cons op post =>
    have hop := hpost op rfl
    rw [List.foldl_cons, if_neg (List.cons_ne_nil op post)]
    cases op with
    | publish msg => cases hop
    | _ =>
      rw [Interval.step, if_pos hop, foldl_off]
      nofun

/-! ## The map -/

namespace PubSubInner

theorem mem_removeKey {subscribers : List (UInt64 × Nat)} {id : UInt64} {e : UInt64 × Nat} :
    e ∈ removeKey subscribers id ↔ e ∈ subscribers ∧ e.1 ≠ id := by
  rw [removeKey, List.mem_filter, decide_eq_true_iff]

theorem mem_insertKey {subscribers : List (UInt64 × Nat)} {id : UInt64} {n : Nat} {e : UInt64 × Nat} :
    e ∈ insertKey subscribers id n ↔ (e ∈ subscribers ∧ e.1 ≠ id) ∨ e = (id, n) := by
  rw [insertKey, List.mem_append, mem_removeKey, List.mem_singleton]

/-- What reaches a channel that is open. -/
def push (msg : T) (sub : Subscription T) : Subscription T := { sub with queued := sub.queued ++ [msg] }

/-- When every entry of the map has an open channel of its own, nothing is pruned, and each of them is sent the message. -/
theorem retain_spec (msg : T) {entries : List (UInt64 × Nat)} {subs : List (Subscription T)}
    (hnodup : (entries.map Prod.snd).Nodup)
    (hopen : ∀ e ∈ entries, ∃ sub, subs[e.2]? = some sub ∧ sub.stage ≠ .dropped) :
    (retain msg entries subs).1 = entries ∧
      ∀ m, (retain msg entries subs).2[m]? = if m ∈ entries.map Prod.snd then subs[m]?.map (push msg) else subs[m]? := by
  induction entries generalizing subs with
  | nil => exact ⟨rfl, fun m => (if_neg List.not_mem_nil).symm⟩
  | cons e entries ih =>
    obtain ⟨sub, hsub, hstage⟩ := hopen e List.mem_cons_self
    rw [List.map_cons, List.nodup_cons] at hnodup
    have hlt := (List.getElem?_eq_some_iff.1 hsub).1
    have hsend : send subs e.2 msg = some (subs.set e.2 (push msg sub)) := by
      simp only [send, hsub, if_neg hstage]
      rfl
    -- the other channels are as they were
    have hother : ∀ m, m ≠ e.2 → (subs.set e.2 (push msg sub))[m]? = subs[m]? := fun m hm => List.getElem?_set_ne hm.symm
    have hne : ∀ e' ∈ entries, e'.2 ≠ e.2 := fun e' he' heq => hnodup.1 (heq ▸ List.mem_map_of_mem he')
    have hopen' : ∀ e' ∈ entries, ∃ sub', (subs.set e.2 (push msg sub))[e'.2]? = some sub' ∧ sub'.stage ≠ .dropped := by
      intro e' he'
      rw [hother _ (hne e' he')]
      exact hopen e' (List.mem_cons_of_mem e he')
    have hrest := ih hnodup.2 hopen'
    rw [retain, hsend]
    refine ⟨congrArg _ hrest.1, fun m => ?_⟩
    rw [hrest.2 m, List.map_cons]
    by_cases hm : m = e.2
    · rw [hm, if_neg hnodup.1, if_pos List.mem_cons_self, List.getElem?_set_self hlt, hsub]
      rfl
    · rw [hother m hm]
      refine if_congr ?_ rfl rfl
      rw [List.mem_cons, or_iff_right hm]

/-! ## Identifiers -/

/-- A subscriber keeps the identifier that was drawn for it. -/
theorem map_drawnId_set {subs : List (Subscription T)} {n : Nat} {sub sub' : Subscription T} (hn : subs[n]? = some sub)
    (hid : sub'.drawnId = sub.drawnId) :
    (subs.set n sub').map Subscription.drawnId = subs.map Subscription.drawnId := by
  obtain ⟨hlt, rfl⟩ := List.getElem?_eq_some_iff.1 hn
  have hlt' : n < (subs.map Subscription.drawnId).length := by rwa [List.length_map]
  have hget : subs[n].drawnId = (subs.map Subscription.drawnId)[n] := (List.getElem_map Subscription.drawnId).symm
  rw [List.map_set, hid, hget, List.set_getElem_self]

theorem map_drawnId_retain (msg : T) (entries : List (UInt64 × Nat)) (subs : List (Subscription T)) :
    (retain msg entries subs).2.map Subscription.drawnId = subs.map Subscription.drawnId := by
  induction entries generalizing subs with
  | nil => rfl
  | cons e entries ih =>
    rw [retain]
    split
    · next subs' hsend =>
      rw [send] at hsend
      split at hsend
      · next sub hsub =>
        obtain ⟨-, heq⟩ := Option.ite_none_left_eq_some.1 hsend
        cases heq
        exact (ih _).trans (map_drawnId_set hsub rfl)
      · cases hsend
    · exact ih subs

theorem length_retain (msg : T) (entries : List (UInt64 × Nat)) (subs : List (Subscription T)) :
    (retain msg entries subs).2.length = subs.length := by
  have hlen := congrArg List.length (map_drawnId_retain msg entries subs)
  rwa [List.length_map, List.length_map] at hlen

/-- Whether or not the guard still has its `id`, it has none afterwards. -/
theorem guardUnsubscribe_subs {s : PubSubInner T} {n : Nat} {sub : Subscription T} (hn : s.subs[n]? = some sub) :
    (s.guardUnsubscribe n sub).subs = s.subs.set n { sub with id := none } ∧ (s.guardUnsubscribe n sub).nextId = s.nextId := by
  rw [guardUnsubscribe]
  split
  · exact ⟨rfl, rfl⟩
  · next hnone =>
    have hsame : ({ sub with id := none } : Subscription T) = sub := by rw [← hnone]
    obtain ⟨hlt, hget⟩ := List.getElem?_eq_some_iff.1 hn
    rw [hsame, ← hget, List.set_getElem_self]
    exact ⟨rfl, rfl⟩

/-- Only `fetchAdd` draws an identifier. -/
theorem map_drawnId_step {s s' : PubSubInner T} {op : PubSubOp T} (hs : s.step op = some s') :
    (op = .fetchAdd ∧ s'.subs.map Subscription.drawnId = s.subs.map Subscription.drawnId ++ [s.nextId] ∧
      s'.nextId = s.nextId + 1) ∨
    (op.draws = false ∧ s'.subs.map Subscription.drawnId = s.subs.map Subscription.drawnId ∧ s'.nextId = s.nextId) := by
  cases op with
  | fetchAdd =>
    cases hs
    exact .inl ⟨rfl, List.map_append, rfl⟩
  | publish msg =>
    cases hs
    exact .inr ⟨rfl, map_drawnId_retain msg _ _, rfl⟩
  | unsubscribe id =>
    cases hs
    exact .inr ⟨rfl, rfl, rfl⟩
  | insert n | dropReceiver n =>
    simp only [step] at hs
    split at hs
    · next sub hn =>
      obtain ⟨-, heq⟩ := Option.ite_none_right_eq_some.1 hs
      cases heq
      exact .inr ⟨rfl, map_drawnId_set hn rfl, rfl⟩
    · cases hs
  | guardUnsubscribe n =>
    simp only [step] at hs
    split at hs
    · next sub hn =>
      obtain ⟨-, heq⟩ := Option.ite_none_right_eq_some.1 hs
      cases heq
      obtain ⟨hsubs, hnext⟩ := guardUnsubscribe_subs hn
      rw [hsubs, hnext]
      exact .inr ⟨rfl, map_drawnId_set hn rfl, rfl⟩
    · cases hs
  | dropUnsubscribe n =>
    simp only [step] at hs
    split at hs
    · next sub hn =>
      obtain ⟨-, heq⟩ := Option.ite_none_right_eq_some.1 hs
      cases heq
      obtain ⟨hsubs, hnext⟩ := guardUnsubscribe_subs hn
      rw [setSub, hsubs, List.set_set]
      exact .inr ⟨rfl, map_drawnId_set hn rfl, hnext⟩
    · cases hs
  | recv n =>
    simp only [step] at hs
    split at hs
    · next sub hn =>
      split at hs
      · cases hs
        exact .inr ⟨rfl, map_drawnId_set hn rfl, rfl⟩
      · cases hs
    · cases hs

/-! ## The invariant -/

theorem registered_iff_mem {s : PubSubInner T} {n : Nat} : s.Registered n ↔ n ∈ s.subscribers.map Prod.snd := by
  rw [List.mem_map]
  constructor
  · rintro ⟨id, hid⟩
    exact ⟨(id, n), hid, rfl⟩
  · rintro ⟨⟨id, _⟩, he, rfl⟩
    exact ⟨id, he⟩

/-- The identifiers are the draws of the counter, and every entry of the map is that of its subscriber. -/
structure WellFormed (s : PubSubInner T) : Prop where
  nextId : s.nextId = UInt64.ofNat s.subs.length
  drawn : s.subs.map Subscription.drawnId = Counter.drawn s.subs.length
  entries : ∀ e ∈ s.subscribers, ∃ sub, s.subs[e.2]? = some sub ∧ e.1 = sub.drawnId
  nodup : (s.subscribers.map Prod.snd).Nodup

/-- The state of a subscriber is what its history says. -/
def Tracks (s : PubSubInner T) (n : Nat) (sub : Subscription T) : Interval T → Prop
  | .before => sub.stage = .drawn ∧ ¬s.Registered n ∧ sub.inbox = []
  | .on msgs => sub.stage = .live ∧ sub.id = some sub.drawnId ∧ s.Registered n ∧ sub.inbox = msgs
  | .off msgs => sub.stage ≠ .drawn ∧ (∀ id ∈ sub.id, id = sub.drawnId) ∧ ¬s.Registered n ∧
      (sub.stage ≠ .dropped → sub.inbox = msgs)

/-- What holds of the hub after a history. -/
structure Inv (ops : List (PubSubOp T)) (s : PubSubInner T) : Prop where
  wellFormed : s.WellFormed
  length_eq : s.subs.length = ops.countP PubSubOp.draws
  fresh : ∀ n, s.subs.length ≤ n → PubSubOp.insert n ∉ ops
  tracks : ∀ n sub, s.subs[n]? = some sub → s.Tracks n sub (interval n sub.drawnId ops)

namespace WellFormed

variable {s : PubSubInner T} (h : s.WellFormed)

include h

theorem drawnId_eq {n : Nat} {sub : Subscription T} (hn : s.subs[n]? = some sub) : sub.drawnId = UInt64.ofNat n := by
  have hd : (s.subs.map Subscription.drawnId)[n]? = some sub.drawnId := by rw [List.getElem?_map, hn]; rfl
  rw [h.drawn] at hd
  exact (Counter.getElem?_drawn.1 hd).2

/-- Until the counter has come around, the identifier tells the subscriber. -/
theorem eq_of_drawnId (hle : s.subs.length ≤ 2 ^ 64) {m n : Nat} {sub sub' : Subscription T} (hm : s.subs[m]? = some sub)
    (hn : s.subs[n]? = some sub') (heq : sub.drawnId = sub'.drawnId) : m = n := by
  rw [h.drawnId_eq hm, h.drawnId_eq hn] at heq
  have hmlt := (List.getElem?_eq_some_iff.1 hm).1
  have hnlt := (List.getElem?_eq_some_iff.1 hn).1
  exact Counter.ofNat_injOn (by omega) (by omega) heq

theorem registered_iff {n : Nat} {sub : Subscription T} (hn : s.subs[n]? = some sub) :
    s.Registered n ↔ (sub.drawnId, n) ∈ s.subscribers := by
  constructor
  · rintro ⟨id, hid⟩
    obtain ⟨sub', hsub', heq⟩ := h.entries _ hid
    rw [hn] at hsub'
    cases hsub'
    rwa [← heq]
  · intro hmem
    exact ⟨_, hmem⟩

/-- Unsubscribing an identifier takes its own subscriber out of the map, and no other. -/
theorem registered_unsubscribe {n : Nat} {sub : Subscription T} (hn : s.subs[n]? = some sub) (id : UInt64) :
    (s.unsubscribe id).Registered n ↔ s.Registered n ∧ sub.drawnId ≠ id := by
  constructor
  · rintro ⟨i, hi⟩
    obtain ⟨hmem, hne⟩ := mem_removeKey.1 hi
    obtain ⟨sub', hsub', heq⟩ := h.entries _ hmem
    rw [hn] at hsub'
    cases hsub'
    exact ⟨⟨i, hmem⟩, heq ▸ hne⟩
  · rintro ⟨hr, hne⟩
    exact ⟨_, mem_removeKey.2 ⟨(h.registered_iff hn).1 hr, hne⟩⟩

theorem exists_of_registered {n : Nat} (hr : s.Registered n) : ∃ sub, s.subs[n]? = some sub := by
  obtain ⟨id, hid⟩ := hr
  obtain ⟨sub, hsub, -⟩ := h.entries _ hid
  exact ⟨sub, hsub⟩

theorem registered_unsubscribe_of_ne (hle : s.subs.length ≤ 2 ^ 64) {m n : Nat} {sub : Subscription T}
    (hn : s.subs[n]? = some sub) (hm : m ≠ n) : (s.unsubscribe sub.drawnId).Registered m ↔ s.Registered m := by
  constructor
  · rintro ⟨i, hi⟩
    exact ⟨i, (mem_removeKey.1 hi).1⟩
  · intro hr
    obtain ⟨sub', hsub'⟩ := h.exists_of_registered hr
    exact (h.registered_unsubscribe hsub' _).2 ⟨hr, fun heq => hm (h.eq_of_drawnId hle hsub' hn heq)⟩

/-- The map may lose entries. -/
theorem unsubscribe (id : UInt64) : (s.unsubscribe id).WellFormed where
  nextId := h.nextId
  drawn := h.drawn
  entries := fun e he => h.entries e (mem_removeKey.1 he).1
  nodup := h.nodup.sublist (List.filter_sublist.map _)

/-- A subscriber may change, apart from its identifier. -/
theorem setSub {n : Nat} {sub sub' : Subscription T} (hn : s.subs[n]? = some sub) (hid : sub'.drawnId = sub.drawnId) :
    (s.setSub n sub').WellFormed where
  nextId := by
    rw [PubSubInner.setSub, List.length_set]
    exact h.nextId
  drawn := by
    rw [PubSubInner.setSub, List.length_set, map_drawnId_set hn hid]
    exact h.drawn
  entries := by
    intro e he
    obtain ⟨sub₀, hsub₀, heq⟩ := h.entries e he
    by_cases hne : n = e.2
    · subst hne
      rw [hn] at hsub₀
      cases hsub₀
      exact ⟨sub', List.getElem?_set_self (List.getElem?_eq_some_iff.1 hn).1, heq.trans hid.symm⟩
    · exact ⟨sub₀, (List.getElem?_set_ne hne).trans hsub₀, heq⟩
  nodup := h.nodup

/-- A subscriber may enter the map under its identifier. -/
theorem insert {n : Nat} {sub : Subscription T} (hn : s.subs[n]? = some sub) (hr : ¬s.Registered n) :
    ({ s with subscribers := insertKey s.subscribers sub.drawnId n } : PubSubInner T).WellFormed where
  nextId := h.nextId
  drawn := h.drawn
  entries := by
    intro e he
    rcases mem_insertKey.1 he with ⟨he, -⟩ | rfl
    · exact h.entries e he
    · exact ⟨sub, hn, rfl⟩
  nodup := by
    rw [insertKey, List.map_append, List.map_cons, List.map_nil, ← List.concat_eq_append]
    refine (h.nodup.sublist (List.filter_sublist.map _)).concat ?_
    intro hmem
    obtain ⟨e, he, rfl⟩ := List.mem_map.1 hmem
    exact hr ⟨e.1, (mem_removeKey.1 he).1⟩

/-- A new identifier is the next draw of the counter. -/
theorem fetchAdd :
    ({ s with nextId := s.nextId + 1, subs := s.subs ++ [⟨s.nextId, none, .drawn, [], []⟩] } : PubSubInner T).WellFormed where
  nextId := by
    rw [h.nextId, List.length_append, Counter.ofNat_succ]
    rfl
  drawn := by
    rw [List.map_append, h.drawn, List.length_append, List.length_singleton, Counter.drawn_succ, ← h.nextId]
    rfl
  entries := by
    intro e he
    obtain ⟨sub, hsub, heq⟩ := h.entries e he
    exact ⟨sub, by rw [List.getElem?_append_left (List.getElem?_eq_some_iff.1 hsub).1, hsub], heq⟩
  nodup := h.nodup

/-- A message is sent to everybody in the map, if each of them has a receiver. -/
theorem publish (msg : T) (hopen : ∀ e ∈ s.subscribers, ∃ sub, s.subs[e.2]? = some sub ∧ sub.stage ≠ .dropped) :
    ({ s with subscribers := (retain msg s.subscribers s.subs).1, subs := (retain msg s.subscribers s.subs).2 } :
      PubSubInner T).WellFormed := by
  obtain ⟨hentries, hsubs⟩ := retain_spec msg h.nodup hopen
  have hlen := length_retain msg s.subscribers s.subs
  rw [hentries]
  refine ⟨?_, ?_, ?_, h.nodup⟩
  · rw [hlen]
    exact h.nextId
  · rw [hlen, map_drawnId_retain]
    exact h.drawn
  · intro e he
    obtain ⟨sub, hsub, heq⟩ := h.entries e he
    refine ⟨push msg sub, ?_, heq⟩
    rw [hsubs, if_pos (List.mem_map_of_mem he), hsub]
    rfl

/-- Only that subscriber enters the map: no other has its identifier. -/
theorem registered_insert (hle : s.subs.length ≤ 2 ^ 64) {m n : Nat} {sub : Subscription T} (hn : s.subs[n]? = some sub) :
    ({ s with subscribers := insertKey s.subscribers sub.drawnId n } : PubSubInner T).Registered m ↔
      m = n ∨ s.Registered m := by
  constructor
  · rintro ⟨i, hi⟩
    rcases mem_insertKey.1 hi with ⟨hi, -⟩ | heq
    · exact .inr ⟨i, hi⟩
    · exact .inl (Prod.mk.inj heq).2
  · intro hm
    by_cases hmn : m = n
    · exact ⟨sub.drawnId, mem_insertKey.2 (.inr (by rw [hmn]))⟩
    · have hr := hm.resolve_left hmn
      obtain ⟨sub', hsub'⟩ := h.exists_of_registered hr
      exact ⟨_, mem_insertKey.2 (.inl ⟨(h.registered_iff hsub').1 hr, fun heq => hmn (h.eq_of_drawnId hle hsub' hn heq)⟩)⟩

end WellFormed

/-! ## Steps -/

theorem Tracks.of_registered {s s' : PubSubInner T} {n : Nat} {sub : Subscription T} {iv : Interval T} (h : s.Tracks n sub iv)
    (hr : s'.Registered n ↔ s.Registered n) : s'.Tracks n sub iv := by
  cases iv with
  | before => exact ⟨h.1, fun h' => h.2.1 (hr.1 h'), h.2.2⟩
  | on msgs => exact ⟨h.1, h.2.1, hr.2 h.2.2.1, h.2.2.2⟩
  | off msgs => exact ⟨h.1, h.2.1, fun h' => h.2.2.1 (hr.1 h'), h.2.2.2⟩

/-- What is no message, and neither inserts nor unsubscribes a subscriber, says nothing of it. -/
theorem step_of_quiet {n : Nat} {id : UInt64} (op : PubSubOp T) (hp : ∀ msg, op ≠ .publish msg) (hi : op ≠ .insert n)
    (hr : op.removes n id = false) (iv : Interval T) : iv.step n id op = iv := by
  cases iv with
  | before =>
    cases op with
    | insert m => exact if_neg fun hm => hi (by rw [hm])
    | _ => rfl
  | on msgs =>
    cases op with
    | publish msg => exact absurd rfl (hp msg)
    | _ =>
      rw [Interval.step, if_neg (ne_true_of_eq_false hr)]
      nofun
  | off msgs => rfl

namespace Inv

variable {ops : List (PubSubOp T)} {s : PubSubInner T}

theorem new : Inv [] (new : PubSubInner T) where
  wellFormed := ⟨rfl, rfl, nofun, List.nodup_nil⟩
  length_eq := rfl
  fresh := nofun
  tracks := nofun

variable (h : Inv ops s)

include h

/-- A subscriber that has an interval is of the same stage. -/
theorem interval_of_drawn {n : Nat} {sub : Subscription T} (hn : s.subs[n]? = some sub) (hstage : sub.stage = .drawn) :
    interval n sub.drawnId ops = .before := by
  have ht := h.tracks n sub hn
  cases hiv : interval n sub.drawnId ops with
  | before => rfl
  | on msgs =>
    rw [hiv] at ht
    exact absurd (hstage.symm.trans ht.1) nofun
  | off msgs =>
    rw [hiv] at ht
    exact absurd hstage ht.1

/-- An operation on one subscriber. -/
theorem of_set {n : Nat} {sub sub' : Subscription T} {op : PubSubOp T} {s' : PubSubInner T} (hn : s.subs[n]? = some sub)
    (hwf : s'.WellFormed) (hsubs : s'.subs = s.subs.set n sub') (hdrawn : sub'.drawnId = sub.drawnId)
    (hdraws : op.draws = false) (hinsert : ∀ m, op = .insert m → m = n)
    (hother : ∀ m, m ≠ n → (s'.Registered m ↔ s.Registered m))
    (hquiet : ∀ m id, m ≠ n → ∀ iv : Interval T, iv.step m id op = iv)
    (hself : s'.Tracks n sub' ((interval n sub.drawnId ops).step n sub.drawnId op)) : Inv (ops ++ [op]) s' where
  wellFormed := hwf
  length_eq := by
    rw [hsubs, List.length_set, h.length_eq, List.countP_append, List.countP_singleton, if_neg (by simp [hdraws])]
    rfl
  fresh := by
    intro m hm
    rw [hsubs, List.length_set] at hm
    rw [List.mem_append, List.mem_singleton, not_or]
    refine ⟨h.fresh m hm, fun heq => ?_⟩
    rw [hinsert m heq.symm] at hm
    exact absurd (List.getElem?_eq_some_iff.1 hn).1 (Nat.not_lt.2 hm)
  tracks := by
    intro m sub₀ hm
    rw [hsubs] at hm
    rw [interval_snoc]
    by_cases hmn : m = n
    · subst hmn
      rw [List.getElem?_set_self (List.getElem?_eq_some_iff.1 hn).1] at hm
      cases hm
      rw [hdrawn]
      exact hself
    · rw [List.getElem?_set_ne (Ne.symm hmn)] at hm
      rw [hquiet m _ hmn]
      exact (h.tracks m sub₀ hm).of_registered (hother m hmn)

theorem fetchAdd : Inv (ops ++ [.fetchAdd])
    { s with nextId := s.nextId + 1, subs := s.subs ++ [⟨s.nextId, none, .drawn, [], []⟩] } where
  wellFormed := h.wellFormed.fetchAdd
  length_eq := by
    rw [List.length_append, h.length_eq, List.countP_append]
    rfl
  fresh := by
    intro n hn
    rw [List.length_append, List.length_singleton] at hn
    rw [List.mem_append, List.mem_singleton, not_or]
    exact ⟨h.fresh n (by omega), nofun⟩
  tracks := by
    intro n sub hn
    rw [interval_snoc, step_of_quiet .fetchAdd nofun nofun rfl]
    rcases Nat.lt_or_ge n s.subs.length with hlt | hge
    · rw [List.getElem?_append_left hlt] at hn
      exact (h.tracks n sub hn).of_registered Iff.rfl
    · rw [List.getElem?_append_right hge, List.getElem?_singleton, Option.ite_none_right_eq_some] at hn
      obtain ⟨-, hsub⟩ := hn
      cases hsub
      rw [interval_of_notMem (h.fresh n hge)]
      refine ⟨rfl, fun hr => ?_, rfl⟩
      obtain ⟨sub, hsub⟩ := h.wellFormed.exists_of_registered hr
      exact absurd (List.getElem?_eq_some_iff.1 hsub).1 (Nat.not_lt.2 hge)

theorem unsubscribe (id : UInt64) : Inv (ops ++ [.unsubscribe id]) (s.unsubscribe id) where
  wellFormed := h.wellFormed.unsubscribe id
  length_eq := by
    rw [List.countP_append]
    exact h.length_eq
  fresh := by
    intro n hn
    rw [List.mem_append, List.mem_singleton, not_or]
    exact ⟨h.fresh n hn, nofun⟩
  tracks := by
    intro n sub hn
    have ht := h.tracks n sub hn
    have hreg := h.wellFormed.registered_unsubscribe hn id
    rw [interval_snoc]
    by_cases hid : sub.drawnId = id
    · have hnot : ¬(s.unsubscribe id).Registered n := fun hr => (hreg.1 hr).2 hid
      have hremoves : (PubSubOp.unsubscribe id : PubSubOp T).removes n sub.drawnId = true := decide_eq_true hid.symm
      cases hiv : interval n sub.drawnId ops with
      | before =>
        rw [hiv] at ht
        exact ⟨ht.1, hnot, ht.2.2⟩
      | on msgs =>
        rw [hiv] at ht
        rw [Interval.step, if_pos hremoves]
        · exact ⟨by rw [ht.1]; nofun, by rw [ht.2.1]; rintro _ ⟨⟩; rfl, hnot, fun _ => ht.2.2.2⟩
        · nofun
      | off msgs =>
        rw [hiv] at ht
        exact ⟨ht.1, ht.2.1, hnot, ht.2.2.2⟩
    · rw [step_of_quiet (.unsubscribe id) nofun nofun (decide_eq_false fun heq => hid heq.symm)]
      exact ht.of_registered (hreg.trans (and_iff_left hid))

theorem insert (hle : s.subs.length ≤ 2 ^ 64) {n : Nat} {sub : Subscription T} (hn : s.subs[n]? = some sub)
    (hstage : sub.stage = .drawn) :
    Inv (ops ++ [.insert n]) { s.setSub n { sub with id := some sub.drawnId, stage := .live } with
      subscribers := insertKey s.subscribers sub.drawnId n } := by
  have hbefore := h.interval_of_drawn hn hstage
  have ht := h.tracks n sub hn
  rw [hbefore] at ht
  generalize hlive : ({ sub with id := some sub.drawnId, stage := .live } : Subscription T) = live
  have hdrawn : live.drawnId = sub.drawnId := by rw [← hlive]
  have hwf : (s.setSub n live).WellFormed := h.wellFormed.setSub hn hdrawn
  have hn' : (s.setSub n live).subs[n]? = some live := List.getElem?_set_self (List.getElem?_eq_some_iff.1 hn).1
  have hle' : (s.setSub n live).subs.length ≤ 2 ^ 64 := by
    rw [setSub, List.length_set]
    exact hle
  have hwf' := hwf.insert hn' ht.2.1
  have hreg : ∀ m, _ := fun m => hwf.registered_insert (m := m) hle' hn'
  rw [hdrawn] at hwf' hreg
  refine h.of_set hn hwf' rfl hdrawn rfl (fun m hm => (PubSubOp.insert.inj hm).symm) ?_ ?_ ?_
  · intro m hm
    exact (hreg m).trans (or_iff_right hm)
  · intro m id hm iv
    exact step_of_quiet (.insert n) nofun (fun heq => hm (PubSubOp.insert.inj heq).symm) rfl iv
  · rw [hbefore, Interval.step, if_pos rfl]
    subst hlive
    exact ⟨rfl, rfl, (hreg n).2 (.inl rfl), ht.2.2⟩

theorem publish (msg : T) : Inv (ops ++ [.publish msg])
    { s with subscribers := (retain msg s.subscribers s.subs).1, subs := (retain msg s.subscribers s.subs).2 } := by
  -- the guard of a subscriber in the map is in use
  have hopen : ∀ e ∈ s.subscribers, ∃ sub, s.subs[e.2]? = some sub ∧ sub.stage ≠ .dropped := by
    intro e he
    obtain ⟨sub, hsub, -⟩ := h.wellFormed.entries e he
    have ht := h.tracks e.2 sub hsub
    refine ⟨sub, hsub, ?_⟩
    cases hiv : interval e.2 sub.drawnId ops with
    | on msgs =>
      rw [hiv] at ht
      rw [ht.1]
      nofun
    | before =>
      rw [hiv] at ht
      exact absurd ⟨e.1, he⟩ ht.2.1
    | off msgs =>
      rw [hiv] at ht
      exact absurd ⟨e.1, he⟩ ht.2.2.1
  have hwf := h.wellFormed.publish msg hopen
  have hlen := length_retain msg s.subscribers s.subs
  obtain ⟨hentries, hsubs⟩ := retain_spec msg h.wellFormed.nodup hopen
  refine ⟨hwf, ?_, ?_, ?_⟩
  · rw [hlen, List.countP_append]
    exact h.length_eq
  · intro n hn
    rw [hlen] at hn
    rw [List.mem_append, List.mem_singleton, not_or]
    exact ⟨h.fresh n hn, nofun⟩
  · intro n sub hn
    rw [interval_snoc]
    rw [hsubs] at hn
    rw [hentries]
    split at hn
    · next hmem =>
      obtain ⟨sub, hsub, rfl⟩ := Option.map_eq_some_iff.1 hn
      have ht := h.tracks n sub hsub
      have hreg : s.Registered n := registered_iff_mem.2 hmem
      change Tracks _ n (push msg sub) ((interval n sub.drawnId ops).step n sub.drawnId (.publish msg))
      cases hiv : interval n sub.drawnId ops with
      | before =>
        rw [hiv] at ht
        exact absurd hreg ht.2.1
      | on msgs =>
        rw [hiv] at ht
        refine ⟨ht.1, ht.2.1, hreg, ?_⟩
        rw [← ht.2.2.2]
        exact (List.append_assoc sub.received sub.queued [msg]).symm
      | off msgs =>
        rw [hiv] at ht
        exact absurd hreg ht.2.2.1
    · next hmem =>
      have ht := h.tracks n sub hn
      have hreg : ¬s.Registered n := fun hr => hmem (registered_iff_mem.1 hr)
      cases hiv : interval n sub.drawnId ops with
      | before =>
        rw [hiv] at ht
        exact ht
      | on msgs =>
        rw [hiv] at ht
        exact absurd ht.2.2.1 hreg
      | off msgs =>
        rw [hiv] at ht
        exact ht

/-- A subscriber whose guard is in use. -/
theorem interval_of_live {n : Nat} {sub : Subscription T} (hn : s.subs[n]? = some sub) (hstage : sub.stage = .live) :
    (interval n sub.drawnId ops = .on sub.inbox ∨ interval n sub.drawnId ops = .off sub.inbox) ∧
      (∀ id ∈ sub.id, id = sub.drawnId) ∧ (sub.id = none → ¬s.Registered n) := by
  have ht := h.tracks n sub hn
  cases hiv : interval n sub.drawnId ops with
  | before =>
    rw [hiv] at ht
    exact absurd (hstage.symm.trans ht.1) nofun
  | on msgs =>
    rw [hiv] at ht
    refine ⟨.inl (by rw [ht.2.2.2]), ?_, fun hnone => absurd (hnone.symm.trans ht.2.1) nofun⟩
    intro id hid
    exact Option.some.inj (hid.symm.trans ht.2.1)
  | off msgs =>
    rw [hiv] at ht
    exact ⟨.inr (by rw [ht.2.2.2 (by rw [hstage]; nofun)]), ht.2.1, fun _ => ht.2.2.1⟩

/-- The guard of a subscriber that is in use unsubscribes it, or it was unsubscribed before. -/
theorem guardUnsubscribe_spec (hle : s.subs.length ≤ 2 ^ 64) {n : Nat} {sub : Subscription T} (hn : s.subs[n]? = some sub)
    (hstage : sub.stage = .live) :
    (s.guardUnsubscribe n sub).WellFormed ∧ (s.guardUnsubscribe n sub).subs = s.subs.set n { sub with id := none } ∧
      ¬(s.guardUnsubscribe n sub).Registered n ∧
      ∀ m, m ≠ n → ((s.guardUnsubscribe n sub).Registered m ↔ s.Registered m) := by
  obtain ⟨-, hid, hnone⟩ := h.interval_of_live hn hstage
  have hlt := (List.getElem?_eq_some_iff.1 hn).1
  cases hsub : sub.id with
  | none =>
    refine ⟨?_, (guardUnsubscribe_subs hn).1, ?_, ?_⟩ <;> rw [guardUnsubscribe, hsub]
    · exact h.wellFormed
    · exact hnone hsub
    · exact fun m _ => Iff.rfl
  | some id =>
    rw [guardUnsubscribe, hsub, hid id hsub]
    have hwf : (s.setSub n { sub with id := none }).WellFormed := h.wellFormed.setSub hn rfl
    have hn' : (s.setSub n { sub with id := none }).subs[n]? = some { sub with id := none } := List.getElem?_set_self hlt
    have hle' : (s.setSub n { sub with id := none }).subs.length ≤ 2 ^ 64 := by
      rw [setSub, List.length_set]
      exact hle
    refine ⟨hwf.unsubscribe _, rfl, ?_, ?_⟩
    · intro hr
      exact ((hwf.registered_unsubscribe hn' _).1 hr).2 rfl
    · intro m hm
      have hreg := hwf.registered_unsubscribe_of_ne hle' hn' hm
      exact hreg

/-- What a subscriber that was subscribed, or unsubscribed before, is after its guard unsubscribes it. -/
theorem step_of_guard {n : Nat} {sub : Subscription T} (hn : s.subs[n]? = some sub) (hstage : sub.stage = .live)
    {op : PubSubOp T} (hop : op = .guardUnsubscribe n ∨ op = .dropUnsubscribe n) :
    (interval n sub.drawnId ops).step n sub.drawnId op = .off sub.inbox := by
  have hremoves : op.removes n sub.drawnId = true := by
    rcases hop with rfl | rfl <;> exact decide_eq_true rfl
  rcases (h.interval_of_live hn hstage).1 with hiv | hiv
  · rw [hiv]
    rcases hop with rfl | rfl <;> exact if_pos hremoves
  · rw [hiv]
    rfl

theorem guardUnsubscribe (hle : s.subs.length ≤ 2 ^ 64) {n : Nat} {sub : Subscription T} (hn : s.subs[n]? = some sub)
    (hstage : sub.stage = .live) : Inv (ops ++ [.guardUnsubscribe n]) (s.guardUnsubscribe n sub) := by
  obtain ⟨hwf, hsubs, hnot, hother⟩ := h.guardUnsubscribe_spec hle hn hstage
  refine h.of_set hn hwf hsubs rfl rfl nofun hother ?_ ?_
  · intro m id hm
    exact step_of_quiet (.guardUnsubscribe n) nofun nofun (decide_eq_false (Ne.symm hm))
  · rw [h.step_of_guard hn hstage (.inl rfl)]
    exact ⟨by rw [hstage]; nofun, nofun, hnot, fun _ => rfl⟩

theorem dropUnsubscribe (hle : s.subs.length ≤ 2 ^ 64) {n : Nat} {sub : Subscription T} (hn : s.subs[n]? = some sub)
    (hstage : sub.stage = .live) : Inv (ops ++ [.dropUnsubscribe n])
      ((s.guardUnsubscribe n sub).setSub n { sub with id := none, stage := .dropping }) := by
  obtain ⟨hwf, hsubs, hnot, hother⟩ := h.guardUnsubscribe_spec hle hn hstage
  have hn' : (s.guardUnsubscribe n sub).subs[n]? = some { sub with id := none } := by
    rw [hsubs]
    exact List.getElem?_set_self (List.getElem?_eq_some_iff.1 hn).1
  have hset : ((s.guardUnsubscribe n sub).setSub n { sub with id := none, stage := .dropping }).subs =
      s.subs.set n { sub with id := none, stage := .dropping } := by
    rw [setSub, hsubs]
    exact List.set_set _
  refine h.of_set hn (hwf.setSub hn' rfl) hset rfl rfl nofun hother ?_ ?_
  · intro m id hm
    exact step_of_quiet (.dropUnsubscribe n) nofun nofun (decide_eq_false (Ne.symm hm))
  · rw [h.step_of_guard hn hstage (.inr rfl)]
    exact ⟨nofun, nofun, hnot, fun _ => rfl⟩

theorem dropReceiver {n : Nat} {sub : Subscription T} (hn : s.subs[n]? = some sub) (hstage : sub.stage = .dropping) :
    Inv (ops ++ [.dropReceiver n]) (s.setSub n { sub with stage := .dropped, queued := [] }) := by
  have ht := h.tracks n sub hn
  refine h.of_set hn (h.wellFormed.setSub hn rfl) rfl rfl rfl nofun (fun m _ => Iff.rfl) ?_ ?_
  · intro m id _
    exact step_of_quiet (.dropReceiver n) nofun nofun rfl
  · rw [step_of_quiet (.dropReceiver n) nofun nofun rfl]
    cases hiv : interval n sub.drawnId ops with
    | before =>
      rw [hiv] at ht
      exact absurd (hstage.symm.trans ht.1) nofun
    | on msgs =>
      rw [hiv] at ht
      exact absurd (hstage.symm.trans ht.1) nofun
    | off msgs =>
      rw [hiv] at ht
      exact ⟨nofun, ht.2.1, ht.2.2.1, fun hne => absurd rfl hne⟩

theorem recv {n : Nat} {sub : Subscription T} (hn : s.subs[n]? = some sub) (hstage : sub.stage = .live) {msg : T}
    {rest : List T} (hqueued : sub.queued = msg :: rest) :
    Inv (ops ++ [.recv n]) (s.setSub n { sub with received := sub.received ++ [msg], queued := rest }) := by
  have ht := h.tracks n sub hn
  have hinbox : sub.inbox = (sub.received ++ [msg]) ++ rest := by
    rw [Subscription.inbox, hqueued, List.append_assoc]
    rfl
  refine h.of_set hn (h.wellFormed.setSub hn rfl) rfl rfl rfl nofun (fun m _ => Iff.rfl) ?_ ?_
  · intro m id _
    exact step_of_quiet (.recv n) nofun nofun rfl
  · rw [step_of_quiet (.recv n) nofun nofun rfl]
    cases hiv : interval n sub.drawnId ops with
    | before =>
      rw [hiv] at ht
      exact absurd (hstage.symm.trans ht.1) nofun
    | on msgs =>
      rw [hiv] at ht
      exact ⟨ht.1, ht.2.1, ht.2.2.1, hinbox.symm.trans ht.2.2.2⟩
    | off msgs =>
      rw [hiv] at ht
      exact ⟨ht.1, ht.2.1, ht.2.2.1, fun hne => hinbox.symm.trans (ht.2.2.2 hne)⟩

/-- One operation. -/
theorem step {op : PubSubOp T} {s' : PubSubInner T} (hle : s.subs.length ≤ 2 ^ 64) (hs : s.step op = some s') :
    Inv (ops ++ [op]) s' := by
  cases op with
  | fetchAdd =>
    cases hs
    exact h.fetchAdd
  | publish msg =>
    cases hs
    exact h.publish msg
  | unsubscribe id =>
    cases hs
    exact h.unsubscribe id
  | insert n =>
    rw [PubSubInner.step] at hs
    split at hs
    · next sub hn =>
      obtain ⟨hstage, heq⟩ := Option.ite_none_right_eq_some.1 hs
      cases heq
      exact h.insert hle hn hstage
    · cases hs
  | guardUnsubscribe n =>
    rw [PubSubInner.step] at hs
    split at hs
    · next sub hn =>
      obtain ⟨hstage, heq⟩ := Option.ite_none_right_eq_some.1 hs
      cases heq
      exact h.guardUnsubscribe hle hn hstage
    · cases hs
  | dropUnsubscribe n =>
    rw [PubSubInner.step] at hs
    split at hs
    · next sub hn =>
      obtain ⟨hstage, heq⟩ := Option.ite_none_right_eq_some.1 hs
      cases heq
      exact h.dropUnsubscribe hle hn hstage
    · cases hs
  | dropReceiver n =>
    rw [PubSubInner.step] at hs
    split at hs
    · next sub hn =>
      obtain ⟨hstage, heq⟩ := Option.ite_none_right_eq_some.1 hs
      cases heq
      exact h.dropReceiver hn hstage
    · cases hs
  | recv n =>
    rw [PubSubInner.step] at hs
    split at hs
    · next sub hn =>
      split at hs
      · next hstage hqueued =>
        cases hs
        exact h.recv hn hstage hqueued
      · cases hs
    · cases hs

end Inv

/-- The identifiers after a run are the draws of the counter. -/
theorem drawnIds_of_run {ops : List (PubSubOp T)} {s : PubSubInner T} (h : Transition.run PubSubInner.step .new ops = some s) :
    s.subs.map Subscription.drawnId = Counter.drawn (ops.countP PubSubOp.draws) ∧
      s.nextId = UInt64.ofNat (ops.countP PubSubOp.draws) := by
  induction ops using List.reverseRecOn generalizing s with
  | nil =>
    cases h
    exact ⟨rfl, rfl⟩
  | append_singleton ops op ih =>
    obtain ⟨s₁, hs₁, hs⟩ := run_snoc.1 h
    obtain ⟨hids, hnext⟩ := ih hs₁
    rw [List.countP_append, List.countP_singleton]
    rcases map_drawnId_step hs with ⟨rfl, hids', hnext'⟩ | ⟨hdraws, hids', hnext'⟩
    · rw [hids', hnext', hids, hnext, Counter.ofNat_succ, ← Counter.drawn_succ]
      exact ⟨rfl, rfl⟩
    · rw [if_neg (ne_true_of_eq_false hdraws), hids', hnext']
      exact ⟨hids, hnext⟩

/-- Until the counter has come around, the state after a run is what the history says. -/
theorem inv_of_run {ops : List (PubSubOp T)} {s : PubSubInner T} (h : Transition.run PubSubInner.step .new ops = some s)
    (hle : ops.countP PubSubOp.draws ≤ 2 ^ 64) : Inv ops s := by
  induction ops using List.reverseRecOn generalizing s with
  | nil =>
    cases h
    exact Inv.new
  | append_singleton ops op ih =>
    obtain ⟨s₁, hs₁, hs⟩ := run_snoc.1 h
    rw [List.countP_append] at hle
    have hops : ops.countP PubSubOp.draws ≤ 2 ^ 64 := by omega
    have hinv := ih hs₁ hops
    exact hinv.step (hinv.length_eq ▸ hops) hs

end PubSubInner

end Anylinuxfs
