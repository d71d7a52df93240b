import Anylinuxfs.Lemmas.PubSub
import Anylinuxfs.SignalSys

/-!
# The hub of the signals

The hub of a mount has natural numbers for its identifiers, and its operations are not cut into steps. The hub with identifiers of
64 bits does the same, step by step, until its counter has come around.
-/

namespace Anylinuxfs

namespace PubSub

/-- What waits for a subscriber. -/
def queue {T : Type} (hub : PubSub T) (id : Nat) : List T := (hub.pending.filter (fun m => m.1 = id)).map Prod.snd

/-- The steps of the hub with identifiers of 64 bits have led to the same subscribers and the same messages in their channels. -/
structure RefinedBy {T : Type} (hub : PubSub T) (s : PubSubInner T) : Prop where
  wellFormed : s.WellFormed
  nextId : hub.nextId = s.subs.length
  subscribers : hub.subscribers = s.subscribers.map Prod.snd
  live : ∀ e ∈ s.subscribers, ∃ sub, s.subs[e.2]? = some sub ∧ sub.stage = .live
  channels : ∀ n sub, s.subs[n]? = some sub → sub.stage ≠ .dropped → hub.queue n = sub.queued
  sent : ∀ m ∈ hub.pending, m.1 < hub.nextId

section

variable {T : Type} {hub hub' : PubSub T} {s : PubSubInner T} {n id : Nat} {msg : T}

/-- Nothing waits for a subscriber that has not come yet. -/
theorem RefinedBy.queue_eq_nil (h : hub.RefinedBy s) (hn : hub.nextId ≤ n) : hub.queue n = [] := by
  rw [queue, List.map_eq_nil_iff, List.filter_eq_nil_iff]
  intro m hm heq
  have hlt := h.sent m hm
  rw [of_decide_eq_true heq] at hlt
  exact Nat.not_lt.2 hn hlt

/-- A message is sent once to each of the subscribers. -/
theorem queue_publish (hnodup : hub.subscribers.Nodup) (msg : T) (n : Nat) :
    (hub.publish msg).queue n = hub.queue n ++ if n ∈ hub.subscribers then [msg] else [] := by
  have hsent : ∀ subscribers : List Nat, subscribers.Nodup →
      ((subscribers.map fun id => (id, msg)).filter fun m => m.1 = n).map Prod.snd = if n ∈ subscribers then [msg] else [] := by
    intro subscribers hnodup
    induction subscribers with
    | nil => rfl
    | cons id subscribers ih =>
      rw [List.nodup_cons] at hnodup
      have hrest := ih hnodup.2
      rw [List.map_cons, List.filter_cons]
      by_cases hid : id = n
      · subst hid
        rw [if_neg hnodup.1] at hrest
        rw [if_pos (decide_eq_true rfl), if_pos List.mem_cons_self, List.map_cons, hrest]
      · rw [if_neg (by simpa using hid), hrest]
        refine if_congr ?_ rfl rfl
        rw [List.mem_cons, or_iff_right (Ne.symm hid)]
  rw [queue, publish, List.filter_append, List.map_append, hsent _ hnodup]
  rfl

/-- The oldest message of a channel is taken, and the other channels are as they were. -/
theorem queue_tryRecv (h : hub.tryRecv id = some (msg, hub')) :
    hub.queue id = msg :: hub'.queue id ∧ ∀ n, n ≠ id → hub'.queue n = hub.queue n := by
  unfold tryRecv at h
  split at h
  case h_2 => cases h
  case h_1 owner _ hfind =>
    cases h
    unfold queue
    dsimp only
    revert hfind
    generalize hub.pending = pending
    intro hfind
    induction pending with
    | nil => cases hfind
    | cons first pending ih =>
      by_cases hm : first.1 = id
      · rw [List.find?_cons_of_pos (by simpa using hm)] at hfind
        rw [List.eraseP_cons_of_pos (by simpa using hm), List.filter_cons_of_pos (by simpa using hm)]
        cases Option.some.inj hfind
        refine ⟨rfl, ?_⟩
        intro n hn
        have hne : owner ≠ n := fun heq => hn (heq.symm.trans hm)
        rw [List.filter_cons_of_neg (by simpa using hne)]
      · rw [List.find?_cons_of_neg (by simpa using hm)] at hfind
        obtain ⟨hself, hother⟩ := ih hfind
        rw [List.eraseP_cons_of_neg (by simpa using hm), List.filter_cons_of_neg (by simpa using hm),
          List.filter_cons_of_neg (by simpa using hm)]
        refine ⟨hself, ?_⟩
        intro n hn
        rw [List.filter_cons, List.filter_cons]
        split
        · rw [List.map_cons, List.map_cons, hother n hn]
        · exact hother n hn

namespace RefinedBy

/-- A new hub. -/
theorem new : ({} : PubSub T).RefinedBy .new := ⟨⟨rfl, rfl, nofun, List.nodup_nil⟩, rfl, rfl, nofun, nofun, nofun⟩

variable (h : hub.RefinedBy s)

include h

/-- Below 2^64, the identifier of an entry says which subscriber it is. -/
theorem key_eq_iff {e : UInt64 × Nat} (he : e ∈ s.subscribers) (hle : hub.nextId ≤ 2 ^ 64) (hid : id < 2 ^ 64) :
    e.1 = UInt64.ofNat id ↔ e.2 = id := by
  obtain ⟨sub, hsub, heq⟩ := h.wellFormed.entries e he
  have hlt : e.2 < hub.nextId := h.nextId ▸ (List.getElem?_eq_some_iff.1 hsub).1
  rw [heq, h.wellFormed.drawnId_eq hsub]
  exact ⟨fun hsame => Counter.ofNat_injOn (hlt.trans_le hle) hid hsame, fun hsame => by rw [hsame]⟩

/-- A subscription draws an identifier and enters the map under it. -/
theorem subscribe (hlt : hub.nextId < 2 ^ 64) :
    ∃ s', Transition.run PubSubInner.step s [.fetchAdd, .insert hub.nextId] = some s' ∧ hub.subscribe.RefinedBy s' := by
  have hdrawn := h.wellFormed.fetchAdd
  generalize hs₁ : ({ s with nextId := s.nextId + 1, subs := s.subs ++ [⟨s.nextId, none, .drawn, [], []⟩] } : PubSubInner T) = s₁
    at hdrawn
  have hsubs : s₁.subs = s.subs ++ [⟨s.nextId, none, .drawn, [], []⟩] := by rw [← hs₁]
  have hmap : s₁.subscribers = s.subscribers := by rw [← hs₁]
  have hget : s₁.subs[hub.nextId]? = some ⟨s.nextId, none, .drawn, [], []⟩ := by
    rw [hsubs, h.nextId, List.getElem?_append_right (Nat.le_refl _), Nat.sub_self]
    rfl
  have hold : ∀ {m : Nat} {sub : Subscription T}, s.subs[m]? = some sub → s₁.subs[m]? = some sub ∧ m < hub.nextId := by
    intro m sub hm
    have hm' := (List.getElem?_eq_some_iff.1 hm).1
    exact ⟨by rw [hsubs, List.getElem?_append_left hm', hm], h.nextId ▸ hm'⟩
  have hnot : ¬s₁.Registered hub.nextId := by
    rintro ⟨i, hi⟩
    rw [hmap] at hi
    obtain ⟨sub, hsub, -⟩ := h.wellFormed.entries _ hi
    exact Nat.lt_irrefl _ (hold hsub).2
  -- nobody has the identifier yet
  have hkeys : PubSubInner.removeKey s.subscribers s.nextId = s.subscribers := by
    refine List.filter_eq_self.2 fun e he => decide_eq_true ?_
    obtain ⟨sub, hsub, -⟩ := h.wellFormed.entries e he
    rw [h.wellFormed.nextId, ← h.nextId, Ne, h.key_eq_iff he hlt.le hlt]
    exact Nat.ne_of_lt (hold hsub).2
  generalize hlive : (⟨s.nextId, some s.nextId, .live, [], []⟩ : Subscription T) = live
  have hset : (s₁.setSub hub.nextId live).WellFormed := hdrawn.setSub hget (by rw [← hlive])
  have hget' : (s₁.setSub hub.nextId live).subs[hub.nextId]? = some live :=
    List.getElem?_set_self (List.getElem?_eq_some_iff.1 hget).1
  have hinsert := hset.insert hget' hnot
  have hid : live.drawnId = s.nextId := by rw [← hlive]
  rw [hid] at hinsert
  refine ⟨_, ?_, hinsert, ?_, ?_, ?_, ?_, ?_⟩
  · have hfirst : s.step .fetchAdd = some s₁ := by rw [← hs₁]; rfl
    have hsecond : s₁.step (.insert hub.nextId) = some { s₁.setSub hub.nextId live with
        subscribers := PubSubInner.insertKey s₁.subscribers s.nextId hub.nextId } := by
      simp only [PubSubInner.step, hget, ← hlive, if_true]
    rw [Transition.run, hfirst]
    change Transition.run PubSubInner.step s₁ [.insert hub.nextId] = _
    rw [Transition.run, hsecond]
    rfl
  · change hub.nextId + 1 = (s₁.subs.set _ _).length
    rw [List.length_set, hsubs, List.length_append, h.nextId]
    rfl
  · change hub.subscribers ++ [hub.nextId] = (PubSubInner.insertKey s₁.subscribers _ _).map Prod.snd
    rw [PubSubInner.insertKey, hmap, hkeys, List.map_append, h.subscribers]
    rfl
  · intro e he
    rcases PubSubInner.mem_insertKey.1 he with ⟨he, -⟩ | rfl
    · have he' : e ∈ s.subscribers := hmap ▸ he
      obtain ⟨sub, hsub, hstage⟩ := h.live e he'
      have hne : hub.nextId ≠ e.2 := Nat.ne_of_gt (hold hsub).2
      exact ⟨sub, (List.getElem?_set_ne hne).trans (hold hsub).1, hstage⟩
    · exact ⟨live, hget', by rw [← hlive]⟩
  · intro m sub hm hstage
    change hub.queue m = sub.queued
    by_cases hmn : m = hub.nextId
    · subst hmn
      obtain rfl := Option.some.inj (hget'.symm.trans hm)
      rw [h.queue_eq_nil (Nat.le_refl _), ← hlive]
    · have hm' : s₁.subs[m]? = some sub := (List.getElem?_set_ne (Ne.symm hmn)).symm.trans hm
      rw [hsubs] at hm'
      by_cases hlt' : m < s.subs.length
      · rw [List.getElem?_append_left hlt'] at hm'
        exact h.channels m sub hm' hstage
      · rw [List.getElem?_append_right (Nat.not_lt.1 hlt'), List.getElem?_singleton, Option.ite_none_right_eq_some] at hm'
        exact absurd (h.nextId ▸ Nat.le_antisymm (Nat.sub_eq_zero_iff_le.1 hm'.1) (Nat.not_lt.1 hlt')) hmn
  · exact fun m hm => Nat.lt_succ_of_lt (h.sent m hm)

/-- A message that is published reaches the same channels. -/
theorem publish (msg : T) : ∃ s', s.step (.publish msg) = some s' ∧ (hub.publish msg).RefinedBy s' := by
  have hopen : ∀ e ∈ s.subscribers, ∃ sub, s.subs[e.2]? = some sub ∧ sub.stage ≠ .dropped := by
    intro e he
    obtain ⟨sub, hsub, hstage⟩ := h.live e he
    exact ⟨sub, hsub, by rw [hstage]; nofun⟩
  obtain ⟨hentries, hsubs⟩ := PubSubInner.retain_spec msg h.wellFormed.nodup hopen
  have hnodup : hub.subscribers.Nodup := h.subscribers ▸ h.wellFormed.nodup
  refine ⟨_, rfl, h.wellFormed.publish msg hopen, ?_, ?_, ?_, ?_, ?_⟩
  · change hub.nextId = _
    rw [PubSubInner.length_retain, h.nextId]
  · change hub.subscribers = _
    rw [hentries, h.subscribers]
  · rw [hentries]
    intro e he
    obtain ⟨sub, hsub, hstage⟩ := h.live e he
    exact ⟨PubSubInner.push msg sub, by rw [hsubs, if_pos (List.mem_map_of_mem he), hsub]; rfl, hstage⟩
  · intro m sub hm hstage
    rw [hsubs, ← h.subscribers] at hm
    rw [queue_publish hnodup]
    split at hm
    case isTrue hmem =>
      obtain ⟨old, hold, rfl⟩ := Option.map_eq_some_iff.1 hm
      rw [if_pos hmem, h.channels m old hold hstage]
      rfl
    case isFalse hmem =>
      rw [if_neg hmem, List.append_nil, h.channels m sub hm hstage]
  · intro m hm
    rcases List.mem_append.1 hm with hm | hm
    · exact h.sent m hm
    · obtain ⟨id, hid, rfl⟩ := List.mem_map.1 hm
      rw [h.subscribers] at hid
      obtain ⟨e, he, rfl⟩ := List.mem_map.1 hid
      obtain ⟨sub, hsub, -⟩ := h.live e he
      exact h.nextId ▸ (List.getElem?_eq_some_iff.1 hsub).1

/-- An identifier that has been drawn unsubscribes the same subscriber. -/
theorem unsubscribe (hid : id < hub.nextId) (hle : hub.nextId ≤ 2 ^ 64) :
    ∃ s', s.step (.unsubscribe (UInt64.ofNat id)) = some s' ∧ (hub.unsubscribe id).RefinedBy s' := by
  refine ⟨_, rfl, h.wellFormed.unsubscribe _, h.nextId, ?_, ?_, h.channels, h.sent⟩
  · change hub.subscribers.filter _ = (PubSubInner.removeKey s.subscribers _).map Prod.snd
    rw [h.subscribers, List.filter_map, PubSubInner.removeKey]
    refine congrArg (List.map Prod.snd) (List.filter_congr fun e he => ?_)
    have hiff := h.key_eq_iff he hle (hid.trans_le hle)
    rw [Function.comp_apply, Bool.eq_iff_iff, decide_eq_true_eq, decide_eq_true_eq]
    exact not_congr hiff.symm
  · exact fun e he => h.live e (PubSubInner.mem_removeKey.1 he).1

/-- A subscriber that holds its guard receives the same message. -/
theorem tryRecv {sub : Subscription T} (hr : hub.tryRecv id = some (msg, hub')) (hsub : s.subs[id]? = some sub)
    (hstage : sub.stage = .live) :
    ∃ s', s.step (.recv id) = some s' ∧ hub'.RefinedBy s' ∧ s'.subs[id]?.map Subscription.received = some (sub.received ++ [msg]) := by
  obtain ⟨hself, hother⟩ := queue_tryRecv hr
  have hqueued : sub.queued = msg :: hub'.queue id := by
    rw [← h.channels id sub hsub (by rw [hstage]; nofun), hself]
  have hlt := (List.getElem?_eq_some_iff.1 hsub).1
  have hsame : hub'.nextId = hub.nextId ∧ hub'.subscribers = hub.subscribers ∧ hub'.pending ⊆ hub.pending := by
    unfold PubSub.tryRecv at hr
    split at hr
    · cases hr
      exact ⟨rfl, rfl, List.eraseP_subset⟩
    · cases hr
  generalize htaken : ({ sub with received := sub.received ++ [msg], queued := hub'.queue id } : Subscription T) = taken
  refine ⟨s.setSub id taken, ?_, ⟨h.wellFormed.setSub hsub (by rw [← htaken]), ?_, ?_, ?_, ?_, ?_⟩, ?_⟩
  · simp only [PubSubInner.step, hsub, hstage, hqueued, ← htaken]
  · rw [hsame.1, PubSubInner.setSub, List.length_set, h.nextId]
  · rw [hsame.2.1, h.subscribers]
    rfl
  · intro e he
    obtain ⟨old, hold, hlive⟩ := h.live e he
    by_cases hne : id = e.2
    · exact ⟨taken, hne ▸ List.getElem?_set_self hlt, by rw [← htaken]; exact hstage⟩
    · exact ⟨old, (List.getElem?_set_ne hne).trans hold, hlive⟩
  · intro m sub' hm hstage'
    by_cases hmn : m = id
    · subst hmn
      obtain rfl := Option.some.inj ((List.getElem?_set_self hlt).symm.trans hm)
      rw [← htaken]
    · rw [hother m hmn]
      exact h.channels m sub' ((List.getElem?_set_ne (Ne.symm hmn)).symm.trans hm) hstage'
  · rw [hsame.1]
    exact fun m hm => h.sent m (hsame.2.2 hm)
  · have hget : (s.setSub id taken).subs[id]? = some taken := List.getElem?_set_self hlt
    rw [hget, Option.map_some, ← htaken]

end RefinedBy

end

end PubSub

end Anylinuxfs
