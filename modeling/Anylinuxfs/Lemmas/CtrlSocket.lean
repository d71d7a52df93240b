import Anylinuxfs.CtrlSocket

/-!
# The way of the report

The invariant of the control socket follows the receiver of the report: as long as it is to be taken nothing was written, the
thread that has it writes one report, and when it is gone that report was written and `done` signalled. Every step keeps it
(`Inv.step`).
-/

namespace Anylinuxfs

open VmCtrl

namespace CtrlSys

/-! ## The invariant -/

/-- What the thread that took the receiver has written so far. -/
def TakerInv (i : Nat) (written : List (Nat × Report × Bool)) : Subscriber → Prop
  | .spawned | .finished => False
  | .waiting | .writing _ => written = []
  | .signalling => ∃ report ok, written = [(i, report, ok)]

/-- What has happened to the report, by the place of its receiver. -/
def ChannelInv (s : CtrlSys) : Prop :=
  match s.reportRx with
  | .shared => s.taker = none ∧ s.written = [] ∧ ∀ t ∈ s.threads, t = .spawned
  | .taken i =>
    s.taker = some i ∧ (∃ t, s.threads[i]? = some t ∧ TakerInv i s.written t) ∧
      ∀ j t, j ≠ i → s.threads[j]? = some t → t = .spawned
  | .dropped =>
    (∀ t ∈ s.threads, t = .spawned ∨ t = .finished) ∧
      ((s.loop = .gone ∧ s.threads = [] ∧ s.written = []) ∨ ∃ i report ok, s.taker = some i ∧ s.written = [(i, report, ok)])

/-- A report that a subscriber writes or has written. -/
def Passed (s : CtrlSys) (report : Report) : Prop :=
  (∃ i ok, (i, report, ok) ∈ s.written) ∨ .writing report ∈ s.threads

/-- What holds in every state. -/
structure Inv (s : CtrlSys) : Prop where
  signals : s.doneSignals = if s.doneTx = .sent then 1 else 0
  flag : s.eventsSubscribed = true ↔ .subscribeEvents ∈ s.handled
  unsubscribed : s.eventsSubscribed = false → s.threads = [] ∧ s.loop ≠ .spawning
  subscribed : s.eventsSubscribed = true → s.threads ≠ [] ∨ s.loop = .spawning
  channel : s.ChannelInv
  doneUnsubscribed : s.doneTx ≠ .held → s.eventsSubscribed = false → s.loop = .leaving ∨ s.loop = .gone
  doneSubscribed : s.doneTx ≠ .held → s.eventsSubscribed = true → s.reportRx = .dropped
  queued : ∀ report ∈ s.reports, s.sendReport.sent = some report
  passed : ∀ report, s.Passed report → s.sendReport.sent = some report ∨ (s.sendReport.sent = none ∧ s.reportTx = false)
  unread : ∀ report, s.sendReport.sent = some report → report ∈ s.reports ∨ s.Passed report
  returned : ∀ report, s.sendReport = .returned report true → s.doneTx ≠ .held

theorem inv_init : Inv {} where
  signals := rfl
  flag := by simp
  unsubscribed := by simp
  subscribed := by simp
  channel := ⟨rfl, rfl, by simp⟩
  doneUnsubscribed := by simp
  doneSubscribed := by simp
  queued := by simp
  passed := by simp [Passed]
  unread := nofun
  returned := by simp

variable {s s' : CtrlSys}

/-- Nothing was written, or one report to the thread that took the receiver. -/
theorem ChannelInv.written_cases (h : s.ChannelInv) :
    s.written = [] ∨ ∃ i report ok, s.taker = some i ∧ s.written = [(i, report, ok)] := by
  unfold ChannelInv at h
  split at h
  · exact Or.inl h.2.1
  · next i _ =>
    obtain ⟨htaker, ⟨t, -, ht⟩, -⟩ := h
    cases t with
    | spawned => exact ht.elim
    | finished => exact ht.elim
    | waiting => exact Or.inl ht
    | writing r => exact Or.inl ht
    | signalling =>
      obtain ⟨report, ok, hw⟩ := ht
      exact Or.inr ⟨i, report, ok, htaker, hw⟩
  · rcases h.2 with ⟨-, -, hw⟩ | hw
    · exact Or.inl hw
    · exact Or.inr hw

/-- What does not touch the report and does not bring the loop back leaves what has happened to the report. -/
theorem ChannelInv.congr (h : s.ChannelInv) (hrx : s'.reportRx = s.reportRx) (htaker : s'.taker = s.taker)
    (hwritten : s'.written = s.written) (hthreads : s'.threads = s.threads) (hloop : s.loop = .gone → s'.loop = .gone) :
    s'.ChannelInv := by
  unfold ChannelInv at h ⊢
  rw [hrx, htaker, hwritten, hthreads]
  cases hcase : s.reportRx with
  | shared => simpa only [hcase] using h
  | taken i => simpa only [hcase] using h
  | dropped =>
    simp only [hcase] at h ⊢
    exact ⟨h.1, h.2.imp_left fun hl => ⟨hloop hl.1, hl.2⟩⟩

/-- The invariant gives the delivery. -/
theorem Inv.delivers (h : s.Inv) : s.Delivers where
  doneOnce := by
    rw [h.signals]
    split <;> omega
  oneReceiver := by
    rcases h.channel.written_cases with hw | ⟨i, report, ok, -, hw⟩
    · rw [hw]
      exact Nat.zero_le 1
    · rw [hw]
      exact Nat.le_refl 1
  reportFirst := by
    intro hsub report hret
    have hflag : s.eventsSubscribed = true := h.flag.2 ((List.takeWhile_sublist _).subset hsub)
    have hrx := h.doneSubscribed (h.returned report hret) hflag
    have hc := h.channel
    simp only [ChannelInv, hrx] at hc
    rcases hc.2 with ⟨hgone, hthreads, -⟩ | ⟨i, report', ok, htaker, hw⟩
    · rcases h.subscribed hflag with ht | hl
      · exact absurd hthreads ht
      · rw [hgone] at hl
        cases hl
    · have hmem : (i, report', ok) ∈ s.written := by
        rw [hw]
        exact List.mem_singleton.2 rfl
      have hsent : s.sendReport.sent = some report := by
        rw [hret]
        rfl
      have hp := h.passed report' (Or.inl ⟨i, ok, hmem⟩)
      rw [hsent] at hp
      obtain rfl : report = report' := by simpa using hp
      exact ⟨i, ok, htaker, hmem⟩

/-! ## Steps of the accept loop -/

theorem Inv.accept (h : s.Inv) (hloop : s.loop = .accepting) (i : Incoming) : (s.accept i).Inv := by
  have hdone : s.doneTx ≠ .held → s.eventsSubscribed = true := by
    intro hd
    refine Bool.of_not_eq_false fun hf => ?_
    rcases h.doneUnsubscribed hd hf with hl | hl <;> rw [hloop] at hl <;> cases hl
  have hgone : s.loop ≠ .gone := by
    rw [hloop]
    nofun
  cases i with
  | malformed => exact h
  | acceptError =>
    exact { h with
      unsubscribed := fun hf => ⟨(h.unsubscribed hf).1, nofun⟩
      subscribed := fun hf => by
        rcases h.subscribed hf with ht | hl
        · exact Or.inl ht
        · rw [hloop] at hl
          cases hl
      channel := h.channel.congr rfl rfl rfl rfl fun hl => absurd hl hgone
      doneUnsubscribed := fun _ _ => Or.inl rfl
      passed := h.passed
      unread := h.unread }
  | request r =>
    cases r with
    | quit =>
      exact { h with
        flag := by simpa [CtrlSys.accept] using h.flag
        unsubscribed := fun hf => ⟨(h.unsubscribed hf).1, nofun⟩
        subscribed := fun hf => by
          rcases h.subscribed hf with ht | hl
          · exact Or.inl ht
          · rw [hloop] at hl
            cases hl
        channel := h.channel.congr rfl rfl rfl rfl fun hl => absurd hl hgone
        doneUnsubscribed := fun hd hf => absurd (hdone hd) (Bool.eq_false_iff.1 hf)
        passed := h.passed
        unread := h.unread }
    | subscribeEvents =>
      exact { h with
        flag := by simp [CtrlSys.accept]
        unsubscribed := nofun
        subscribed := fun _ => Or.inr rfl
        channel := h.channel.congr rfl rfl rfl rfl fun hl => absurd hl hgone
        doneUnsubscribed := fun _ hf => nomatch hf
        doneSubscribed := fun hd _ => h.doneSubscribed hd (hdone hd)
        passed := h.passed
        unread := h.unread }

/-- Only the place of the loop changes: to one where it does not wait for a new thread. -/
theorem Inv.leave (h : s.Inv) (hloop : s.loop ≠ .spawning) (hgone : s.loop ≠ .gone) :
    ({ s with loop := .leaving } : CtrlSys).Inv :=
  { h with
    unsubscribed := fun hf => ⟨(h.unsubscribed hf).1, nofun⟩
    subscribed := fun hf => Or.inl ((h.subscribed hf).resolve_right hloop)
    channel := h.channel.congr rfl rfl rfl rfl fun hl => absurd hl hgone
    doneUnsubscribed := fun _ _ => Or.inl rfl
    passed := h.passed
    unread := h.unread }

/-- `done` is signalled while nobody has subscribed, and the loop is left. -/
theorem Inv.signalLeave (h : s.Inv) (hflag : s.eventsSubscribed = false) (hloop : s.loop = .quitting) :
    ({ s.signalDone with loop := .leaving } : CtrlSys).Inv := by
  unfold signalDone
  split
  · next hheld =>
    have hsignals : s.doneSignals = 0 := by
      rw [h.signals, hheld]
      rfl
    have hleave := h.leave (by rw [hloop]; nofun) (by rw [hloop]; nofun)
    exact { hleave with
      signals := by simp [hsignals]
      doneUnsubscribed := fun _ _ => Or.inl rfl
      doneSubscribed := fun _ hf => absurd hf (Bool.eq_false_iff.1 hflag)
      channel := hleave.channel
      passed := h.passed
      unread := h.unread
      returned := fun _ _ => nofun }
  · exact h.leave (by rw [hloop]; nofun) (by rw [hloop]; nofun)

/-- A thread is spawned for a subscriber. -/
theorem Inv.spawn (h : s.Inv) (hloop : s.loop = .spawning) :
    ({ s with loop := .accepting, threads := s.threads ++ [.spawned] } : CtrlSys).Inv := by
  have hflag : s.eventsSubscribed = true := Bool.of_not_eq_false fun hf => (h.unsubscribed hf).2 hloop
  exact { h with
    unsubscribed := fun hf => absurd hflag (Bool.eq_false_iff.1 hf)
    subscribed := fun _ => Or.inl (by simp)
    channel := by
      have hc := h.channel
      unfold ChannelInv at hc ⊢
      cases hrx : s.reportRx with
      | shared =>
        simp only [hrx] at hc ⊢
        refine ⟨hc.1, hc.2.1, fun t ht => ?_⟩
        rcases List.mem_append.1 ht with ht | ht
        · exact hc.2.2 t ht
        · exact List.mem_singleton.1 ht
      | taken i =>
        simp only [hrx] at hc ⊢
        obtain ⟨htaker, ⟨t, ht, hinv⟩, hother⟩ := hc
        have hlt : i < s.threads.length := (List.getElem?_eq_some_iff.1 ht).1
        refine ⟨htaker, ⟨t, by rwa [List.getElem?_append_left hlt], hinv⟩, fun j t' hj hget => ?_⟩
        rcases List.mem_append.1 (List.mem_of_getElem? hget) with hmem | hmem
        · rcases Nat.lt_or_ge j s.threads.length with hlt' | hge
          · rw [List.getElem?_append_left hlt'] at hget
            exact hother j t' hj hget
          · rw [List.getElem?_append_right hge] at hget
            exact List.mem_singleton.1 (List.mem_of_getElem? hget)
        · exact List.mem_singleton.1 hmem
      | dropped =>
        simp only [hrx] at hc ⊢
        refine ⟨fun t ht => ?_, Or.inr (hc.2.resolve_left fun hl => ?_)⟩
        · rcases List.mem_append.1 ht with ht | ht
          · exact hc.1 t ht
          · exact Or.inl (List.mem_singleton.1 ht)
        · rw [hloop] at hl
          cases hl.1
    doneUnsubscribed := fun _ hf => absurd hflag (Bool.eq_false_iff.1 hf)
    passed := fun report hp => h.passed report (by simpa [Passed] using hp)
    unread := fun report hsent => (h.unread report hsent).imp_right fun hp => by simpa [Passed] using hp }

/-- The loop ends when all threads have: what is left of the channels is dropped. -/
theorem Inv.gone (h : s.Inv) (hloop : s.loop = .leaving) (hall : ∀ t ∈ s.threads, t = .finished) :
    ({ s with
      loop := .gone
      doneTx := if s.doneTx = .held then .dropped else s.doneTx
      reportRx := if s.reportRx = .shared then .dropped else s.reportRx } : CtrlSys).Inv := by
  -- a receiver that is shared was never taken, and nobody has subscribed
  have hshared : s.reportRx = .shared → s.threads = [] ∧ s.eventsSubscribed = false := by
    intro hrx
    have hc := h.channel
    simp only [ChannelInv, hrx] at hc
    have hnil : s.threads = [] := by
      refine List.eq_nil_iff_forall_not_mem.2 fun t ht => ?_
      have hspawned := hc.2.2 t ht
      rw [hall t ht] at hspawned
      cases hspawned
    refine ⟨hnil, Bool.eq_false_iff.2 fun hf => ?_⟩
    rcases h.subscribed hf with ht | hl
    · exact ht hnil
    · rw [hloop] at hl
      cases hl
  have hnotTaken : ∀ i, s.reportRx ≠ .taken i := by
    intro i hrx
    have hc := h.channel
    simp only [ChannelInv, hrx] at hc
    obtain ⟨-, ⟨t, ht, hinv⟩, -⟩ := hc
    rw [hall t (List.mem_of_getElem? ht)] at hinv
    exact hinv
  have hdropped : (if s.reportRx = .shared then ReportRx.dropped else s.reportRx) = .dropped := by
    cases hrx : s.reportRx with
    | shared => rfl
    | taken i => exact absurd hrx (hnotTaken i)
    | dropped => rfl
  exact { h with
    signals := by
      rw [h.signals]
      cases s.doneTx <;> rfl
    unsubscribed := fun hf => ⟨(h.unsubscribed hf).1, nofun⟩
    subscribed := fun hf => Or.inl ((h.subscribed hf).resolve_right (by rw [hloop]; nofun))
    channel := by
      simp only [ChannelInv, hdropped]
      refine ⟨fun t ht => Or.inr (hall t ht), ?_⟩
      cases hrx : s.reportRx with
      | shared =>
        have hc := h.channel
        simp only [ChannelInv, hrx] at hc
        exact Or.inl ⟨trivial, (hshared hrx).1, hc.2.1⟩
      | taken i => exact absurd hrx (hnotTaken i)
      | dropped =>
        have hc := h.channel
        simp only [ChannelInv, hrx] at hc
        exact hc.2.imp_left fun hl => ⟨trivial, hl.2⟩
    doneUnsubscribed := fun _ _ => Or.inr rfl
    doneSubscribed := fun _ _ => hdropped
    passed := h.passed
    unread := h.unread
    returned := fun report hr hd => by
      have hheld := h.returned report hr
      simp only [if_neg hheld] at hd
      exact hheld hd }

theorem Inv.loopStep (h : s.Inv) (hs : s.loopStep = some s') : s'.Inv := by
  unfold CtrlSys.loopStep at hs
  split at hs
  · cases hs
  · next hloop =>
    cases hs
    split
    · exact h.leave (by rw [hloop]; nofun) (by rw [hloop]; nofun)
    · next hflag => exact h.signalLeave (Bool.eq_false_iff.2 hflag) hloop
  · next hloop =>
    cases hs
    exact h.spawn hloop
  · next hloop =>
    split at hs
    · next hall =>
      cases hs
      exact h.gone hloop hall
    · cases hs
  · cases hs

/-! ## Steps of a subscriber -/

/-- A thread that is not writing changes to a state in which it is not writing. -/
theorem passed_set {i : Nat} {t : Subscriber} (ht : ∀ report, t ≠ .writing report) {report : Report}
    (h : ({ s with threads := s.threads.set i t } : CtrlSys).Passed report) : s.Passed report := by
  rcases h with hw | hw
  · exact Or.inl hw
  · rcases List.mem_or_eq_of_mem_set hw with hw | hw
    · exact Or.inr hw
    · exact absurd hw.symm (ht report)

/-- A thread that is not writing changes, and no report is lost by that. -/
theorem Passed.set {i : Nat} {t : Subscriber} (hi : s.threads[i]? = some t) (ht : ∀ report, t ≠ .writing report)
    (t' : Subscriber) {report : Report} (h : s.Passed report) :
    ({ s with threads := s.threads.set i t' } : CtrlSys).Passed report := by
  rcases h with hw | hw
  · exact Or.inl hw
  · obtain ⟨j, hj⟩ := List.getElem?_of_mem hw
    have hij : i ≠ j := by
      rintro rfl
      exact ht report (Option.some.inj (hi.symm.trans hj))
    exact Or.inr (List.mem_of_getElem? ((List.getElem?_set_ne hij).trans hj))

/-- A thread is there only after a subscription. -/
theorem Inv.flag_of_thread (h : s.Inv) {i : Nat} {t : Subscriber} (hi : s.threads[i]? = some t) : s.eventsSubscribed = true := by
  refine Bool.of_not_eq_false fun hf => ?_
  rw [(h.unsubscribed hf).1] at hi
  cases hi

theorem set_ne_nil {i : Nat} {t : Subscriber} (hi : s.threads[i]? = some t) (t' : Subscriber) : s.threads.set i t' ≠ [] := by
  intro hnil
  rw [(List.set_eq_nil_iff _ _).1 hnil] at hi
  cases hi

/-- A subscriber takes the receiver. -/
theorem Inv.take (h : s.Inv) {i : Nat} (hi : s.threads[i]? = some .spawned) (hrx : s.reportRx = .shared) :
    ({ s with reportRx := .taken i, taker := some i, threads := s.threads.set i .waiting } : CtrlSys).Inv := by
  have hlt : i < s.threads.length := (List.getElem?_eq_some_iff.1 hi).1
  have hc := h.channel
  simp only [ChannelInv, hrx] at hc
  exact { h with
    unsubscribed := fun hf => absurd (h.flag_of_thread hi) (Bool.eq_false_iff.1 hf)
    subscribed := fun _ => Or.inl (set_ne_nil hi _)
    channel := by
      refine ⟨rfl, ⟨.waiting, List.getElem?_set_self hlt, hc.2.1⟩, fun j t hj hget => ?_⟩
      rw [List.getElem?_set_ne (Ne.symm hj)] at hget
      exact hc.2.2 t (List.mem_of_getElem? hget)
    doneSubscribed := fun hd hf => by
      have hdropped := h.doneSubscribed hd hf
      rw [hrx] at hdropped
      cases hdropped
    passed := fun report hp => h.passed report (passed_set (t := .waiting) nofun hp)
    unread := fun report hsent => (h.unread report hsent).imp_right fun hp => hp.set hi nofun .waiting }

/-- A subscriber finds that the receiver was taken before. -/
theorem Inv.giveUp (h : s.Inv) {i : Nat} (hi : s.threads[i]? = some .spawned) (hrx : s.reportRx = .dropped) :
    ({ s with threads := s.threads.set i .finished } : CtrlSys).Inv := by
  have hc := h.channel
  simp only [ChannelInv, hrx] at hc
  exact { h with
    unsubscribed := fun hf => absurd (h.flag_of_thread hi) (Bool.eq_false_iff.1 hf)
    subscribed := fun _ => Or.inl (set_ne_nil hi _)
    channel := by
      simp only [ChannelInv, hrx]
      refine ⟨fun t ht => ?_, hc.2.imp_left fun hl => ?_⟩
      · rcases List.mem_or_eq_of_mem_set ht with ht | rfl
        · exact hc.1 t ht
        · exact Or.inr rfl
      · rw [hl.2.1] at hi
        cases hi
    passed := fun report hp => h.passed report (passed_set (t := .finished) nofun hp)
    unread := fun report hsent => (h.unread report hsent).imp_right fun hp => hp.set hi nofun .finished }

/-- The thread that holds the receiver goes on. -/
theorem ChannelInv.set (h : s.ChannelInv) {i : Nat} {t : Subscriber} (hi : s.threads[i]? = some t)
    (hbusy : t ≠ .spawned ∧ t ≠ .finished) :
    s.reportRx = .taken i ∧ TakerInv i s.written t ∧ ∀ (t' : Subscriber) (written : List (Nat × Report × Bool))
      (reports : List Report), TakerInv i written t' →
        ({ s with reports := reports, written := written, threads := s.threads.set i t' } : CtrlSys).ChannelInv := by
  have hlt : i < s.threads.length := (List.getElem?_eq_some_iff.1 hi).1
  have hmem : t ∈ s.threads := List.mem_of_getElem? hi
  unfold ChannelInv at h
  cases hrx : s.reportRx with
  | shared =>
    simp only [hrx] at h
    exact absurd (h.2.2 t hmem) hbusy.1
  | dropped =>
    simp only [hrx] at h
    rcases h.1 t hmem with ht | ht
    · exact absurd ht hbusy.1
    · exact absurd ht hbusy.2
  | taken j =>
    simp only [hrx] at h
    obtain ⟨htaker, ⟨t₀, ht₀, hinv⟩, hother⟩ := h
    obtain rfl : i = j := Classical.byContradiction fun hij => hbusy.1 (hother i t hij hi)
    obtain rfl : t = t₀ := Option.some.inj (hi.symm.trans ht₀)
    refine ⟨rfl, hinv, fun t' written reports hinv' => ?_⟩
    simp only [ChannelInv]
    refine ⟨htaker, ⟨t', List.getElem?_set_self hlt, hinv'⟩, fun j t'' hj hget => ?_⟩
    rw [List.getElem?_set_ne (Ne.symm hj)] at hget
    exact hother j t'' hj hget

/-- While a subscriber waits for the report, nobody writes one or has written one. -/
theorem ChannelInv.not_passed (h : s.ChannelInv) {i : Nat} (hi : s.threads[i]? = some .waiting) (report : Report) :
    ¬s.Passed report := by
  obtain ⟨hrx, hw, -⟩ := h.set hi (by simp)
  simp only [ChannelInv, hrx] at h
  rintro (⟨j, ok, hmem⟩ | hmem)
  · rw [show s.written = [] from hw] at hmem
    cases hmem
  · obtain ⟨j, hj⟩ := List.getElem?_of_mem hmem
    by_cases hij : j = i
    · subst hij
      cases hi.symm.trans hj
    · cases h.2.2 j _ hij hj

/-- A subscriber has a report to write: the one that was sent, or the text of the error if none can be sent any more. -/
theorem Inv.receive (h : s.Inv) {i : Nat} (hi : s.threads[i]? = some .waiting) {report : Report} {rest : List Report}
    (hreport : s.sendReport.sent = some report ∨ (s.sendReport.sent = none ∧ s.reportTx = false))
    (hrest : ∀ r ∈ rest, r ∈ s.reports) (hkept : ∀ r ∈ s.reports, r = report ∨ r ∈ rest) :
    ({ s with reports := rest, threads := s.threads.set i (.writing report) } : CtrlSys).Inv := by
  obtain ⟨hrx, hinv, hset⟩ := h.channel.set hi (by simp)
  exact { h with
    unsubscribed := fun hf => absurd (h.flag_of_thread hi) (Bool.eq_false_iff.1 hf)
    subscribed := fun _ => Or.inl (set_ne_nil hi _)
    channel := hset _ _ _ hinv
    queued := fun r hr => h.queued r (hrest r hr)
    passed := fun r hp => by
      rcases hp with hw | hw
      · exact h.passed r (Or.inl hw)
      · rcases List.mem_or_eq_of_mem_set hw with hw | hw
        · exact h.passed r (Or.inr hw)
        · cases hw
          exact hreport
    unread := fun r hsent => by
      rcases h.unread r hsent with hr | hp
      · rcases hkept r hr with rfl | hr
        · exact Or.inr (Or.inr (List.mem_of_getElem? (List.getElem?_set_self (List.getElem?_eq_some_iff.1 hi).1)))
        · exact Or.inl hr
      · exact Or.inr (hp.set hi nofun _) }

/-- A subscriber writes its report. -/
theorem Inv.write (h : s.Inv) {i : Nat} {report : Report} (hi : s.threads[i]? = some (.writing report)) (ok : Bool) :
    ({ s with written := s.written ++ [(i, report, ok)], threads := s.threads.set i .signalling } : CtrlSys).Inv := by
  obtain ⟨hrx, hinv, hset⟩ := h.channel.set hi (by simp)
  exact { h with
    unsubscribed := fun hf => absurd (h.flag_of_thread hi) (Bool.eq_false_iff.1 hf)
    subscribed := fun _ => Or.inl (set_ne_nil hi _)
    channel := hset _ _ _ ⟨report, ok, by rw [show s.written = [] from hinv]; rfl⟩
    passed := fun r hp => by
      rcases hp with ⟨j, ok', hw⟩ | hw
      · rcases List.mem_append.1 hw with hw | hw
        · exact h.passed r (Or.inl ⟨j, ok', hw⟩)
        · cases List.mem_singleton.1 hw
          exact h.passed report (Or.inr (List.mem_of_getElem? hi))
      · rcases List.mem_or_eq_of_mem_set hw with hw | hw
        · exact h.passed r (Or.inr hw)
        · cases hw
    unread := fun r hsent => (h.unread r hsent).imp_right fun hp => by
      rcases hp with ⟨j, ok', hw⟩ | hw
      · exact Or.inl ⟨j, ok', List.mem_append_left _ hw⟩
      · obtain ⟨j, hj⟩ := List.getElem?_of_mem hw
        by_cases hij : i = j
        · subst hij
          cases Option.some.inj (hi.symm.trans hj)
          exact Or.inl ⟨i, ok, List.mem_append_right _ (List.mem_singleton.2 rfl)⟩
        · exact Or.inr (List.mem_of_getElem? ((List.getElem?_set_ne hij).trans hj)) }

/-- A subscriber signals that it is done and drops the receiver. -/
theorem Inv.finish (h : s.Inv) {i : Nat} (hi : s.threads[i]? = some .signalling) :
    ({ s.signalDone with reportRx := .dropped, threads := s.threads.set i .finished } : CtrlSys).Inv := by
  obtain ⟨hrx, ⟨report, ok, hw⟩, -⟩ := h.channel.set hi (by simp)
  have hheld : s.doneTx = .held := Classical.byContradiction fun hd => by
    have hdropped := h.doneSubscribed hd (h.flag_of_thread hi)
    rw [hrx] at hdropped
    cases hdropped
  have hsignals : s.doneSignals = 0 := by
    rw [h.signals, hheld]
    rfl
  have hc := h.channel
  simp only [ChannelInv, hrx] at hc
  obtain ⟨htaker, -, hother⟩ := hc
  rw [signalDone, if_pos hheld]
  exact { h with
    signals := by simp [hsignals]
    unsubscribed := fun hf => absurd (h.flag_of_thread hi) (Bool.eq_false_iff.1 hf)
    subscribed := fun _ => Or.inl (set_ne_nil hi _)
    channel := by
      refine ⟨fun t ht => ?_, Or.inr ⟨i, report, ok, htaker, hw⟩⟩
      obtain ⟨j, hj⟩ := List.getElem?_of_mem ht
      by_cases hij : j = i
      · subst hij
        rw [List.getElem?_set_self (List.getElem?_eq_some_iff.1 hi).1] at hj
        exact Or.inr (Option.some.inj hj).symm
      · rw [List.getElem?_set_ne (Ne.symm hij)] at hj
        exact Or.inl (hother j t hij hj)
    doneUnsubscribed := fun _ hf => absurd (h.flag_of_thread hi) (Bool.eq_false_iff.1 hf)
    doneSubscribed := fun _ _ => rfl
    passed := fun r hp => h.passed r (passed_set (t := .finished) nofun hp)
    unread := fun r hsent => (h.unread r hsent).imp_right fun hp => hp.set hi nofun .finished
    returned := fun _ _ => nofun }

theorem Inv.threadStep (h : s.Inv) {i : Nat} {ok : Bool} (hs : s.threadStep i ok = some s') : s'.Inv := by
  unfold CtrlSys.threadStep at hs
  split at hs
  · cases hs
  · next hi =>
    split at hs
    · next hrx =>
      cases hs
      exact h.take hi hrx
    · cases hs
    · next hrx =>
      cases hs
      exact h.giveUp hi hrx
  · next hi =>
    split at hs
    · next report rest hqueue =>
      cases hs
      refine h.receive hi (Or.inl (h.queued report ?_)) (fun r hr => ?_) fun r hr => ?_
      · rw [hqueue]
        exact List.mem_cons_self
      · rw [hqueue]
        exact List.mem_cons_of_mem _ hr
      · rw [hqueue] at hr
        exact List.mem_cons.1 hr
    · next hqueue =>
      split at hs
      · cases hs
      · next htx =>
        cases hs
        have hsent : s.sendReport.sent = none := by
          refine Option.eq_none_iff_forall_ne_some.2 fun r hr => ?_
          rcases h.unread r hr with hm | hp
          · rw [hqueue] at hm
            cases hm
          · exact h.channel.not_passed hi r hp
        exact h.receive hi (Or.inr ⟨hsent, Bool.eq_false_iff.2 htx⟩) (fun _ hr => hr) fun _ hr => Or.inr hr
  · next report hi =>
    cases hs
    exact h.write hi ok
  · next hi =>
    cases hs
    exact h.finish hi
  · cases hs

/-! ## The caller -/

theorem Inv.callSendReport (h : s.Inv) {report : Report} (hs : s.callSendReport report = some s') : s'.Inv := by
  unfold CtrlSys.callSendReport at hs
  split at hs
  · next hbefore =>
    obtain ⟨hbefore, htx⟩ := hbefore
    -- nothing was sent yet, and the sender is there, so nothing was written either
    have hsent : s.sendReport.sent = none := by
      rw [hbefore]
      rfl
    have hnone : ∀ r, ¬s.Passed r := by
      intro r hp
      rcases h.passed r hp with hr | hr
      · rw [hsent] at hr
        cases hr
      · rw [htx] at hr
        cases hr.2
    have hempty : s.reports = [] := by
      refine List.eq_nil_iff_forall_not_mem.2 fun r hr => ?_
      have hr := h.queued r hr
      rw [hsent] at hr
      cases hr
    split at hs
    · cases hs
      exact { h with
        channel := h.channel.congr rfl rfl rfl rfl id
        queued := by simp [hempty]
        passed := fun r hp => absurd hp (hnone r)
        unread := nofun
        returned := nofun }
    · cases hs
      exact { h with
        channel := h.channel.congr rfl rfl rfl rfl id
        queued := by simp [hempty, SendReport.sent]
        passed := fun r hp => absurd hp (hnone r)
        unread := fun r hr => by
          cases hr
          exact Or.inl (by simp)
        returned := nofun }
  · cases hs

theorem Inv.recvDone (h : s.Inv) (hs : s.recvDone = some s') : s'.Inv := by
  unfold CtrlSys.recvDone at hs
  split at hs
  · next report hwaiting =>
    split at hs
    · cases hs
    · next hd =>
      cases hs
      have hsent : s.sendReport.sent = some report := by
        rw [hwaiting]
        rfl
      exact { h with
        channel := h.channel.congr rfl rfl rfl rfl id
        queued := fun r hr => (h.queued r hr).symm.trans hsent ▸ rfl
        passed := fun r hp => by
          have hr := h.passed r hp
          rw [hsent] at hr
          exact hr
        unread := fun r hr => h.unread r (hsent.trans hr)
        returned := fun _ _ => hd }
  · cases hs

theorem Inv.dropHandle (h : s.Inv) (hs : s.dropHandle = some s') : s'.Inv := by
  unfold CtrlSys.dropHandle at hs
  split at hs
  · cases hs
  · cases hs
    exact { h with
      channel := h.channel.congr rfl rfl rfl rfl id
      passed := fun r hp => (h.passed r hp).imp_right fun hr => ⟨hr.1, rfl⟩
      unread := h.unread }

/-- Every step keeps the invariant. -/
theorem Inv.step (h : s.Inv) {a : Act} (hs : s.step a = some s') : s'.Inv := by
  cases a with
  | incoming i =>
    simp only [CtrlSys.step] at hs
    split at hs
    · next hloop =>
      cases hs
      exact h.accept hloop i
    · cases hs
  | loop => exact h.loopStep hs
  | thread i ok => exact h.threadStep hs
  | sendReport report => exact h.callSendReport hs
  | recvDone => exact h.recvDone hs
  | dropHandle => exact h.dropHandle hs

end CtrlSys

end Anylinuxfs
