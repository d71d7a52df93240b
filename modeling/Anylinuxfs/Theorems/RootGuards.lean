import Anylinuxfs.RootGuards
import Anylinuxfs.Theorems.Privilege

/-!
# What several threads make of the guards

However the calls of the threads are interleaved, no guard leaves root behind as the effective user. That a guard also holds
what it promises needs that the guards do not overlap.
-/

namespace Anylinuxfs

namespace GuardSys

open Posix (Creds)
open Posix.Creds (Recoverable)
open Transition

variable {T : Type} [DecidableEq T] {uid gid : Nat}

/-! ## One thread alone -/

/-- What a thread does in so many steps when no other one runs. -/
def alone : Nat → GuardPc × Creds → GuardPc × Creds
  | 0, r => r
  | n + 1, r => alone n (guardStep r.2 r.1)

/-- The steps of a thread that is alone make up `EffectiveRootGuard::acquire`. -/
theorem alone_acquire (c : Creds) :
    ∃ n, alone n (.outside, c) = (.holding (EffectiveRootGuard.acquire c).1, (EffectiveRootGuard.acquire c).2) := by
  by_cases h : c.uid.real = 0 ∧ c.uid.effective ≠ 0
  · refine ⟨4, ?_⟩
    change alone 1 (guardStep c (.readGid c.uid.effective c.gid.effective)) = _
    rw [guardStep, if_pos h, EffectiveRootGuard.acquire, if_pos h]
    rfl
  · refine ⟨3, ?_⟩
    change guardStep c (.readGid c.uid.effective c.gid.effective) = _
    rw [guardStep, if_neg h, EffectiveRootGuard.acquire, if_neg h]

/-- The steps of a thread that is alone make up the `Drop` of the guard. -/
theorem alone_drop (guard : EffectiveRootGuard) (c : Creds) : alone 2 (.holding guard, c) = (.outside, guard.drop c) := rfl

/-! ## Any interleaving -/

/-- A user that a thread has read is root or the invoker, and one that it will restore is the invoker. -/
def Stored (uid : Nat) : GuardPc → Prop
  | .readUid x | .readGid x _ => x = 0 ∨ x = uid
  | .elevating x _ => x = uid
  | .holding guard => ∀ x ∈ guard.prevUid, x = uid
  | .releasing prevUid => ∀ x ∈ prevUid, x = uid
  | .outside => True

/-- The process can become root again and acts as root or as the invoker. -/
structure Shared (uid : Nat) (c : Creds) : Prop where
  recoverable : c.Recoverable
  effective : c.uid.effective = 0 ∨ c.uid.effective = uid

theorem Shared.seteuid {c : Creds} (h : Shared uid c) {x : Nat} (hx : x = 0 ∨ x = uid) :
    Shared uid (tryId (Creds.seteuid x) c) ∧ (tryId (Creds.seteuid x) c).uid.effective = x := by
  have hcall : c.seteuid x = some { c with uid.effective := x } := by
    refine if_pos ?_
    rcases h.effective with he | he
    · exact .inl he
    · rcases hx with rfl | rfl
      · exact .inr (.inl h.recoverable.1.symm)
      · exact .inr (.inr (.inl he.symm))
  rw [tryId, hcall, Option.getD_some]
  exact ⟨⟨h.recoverable, hx⟩, rfl⟩

theorem Shared.setegid {c : Creds} (h : Shared uid c) (x : Nat) :
    Shared uid (tryId (Creds.setegid x) c) ∧ (tryId (Creds.setegid x) c).uid = c.uid := by
  have huid : (tryId (Creds.setegid x) c).uid = c.uid := by
    unfold tryId Creds.setegid
    split <;> rfl
  exact ⟨⟨recoverable_tryId_setegid c x h.recoverable, by rw [huid]; exact h.effective⟩, huid⟩

/-- What the next call of a thread does: if the process acts as root after it, then it did so before, and the thread has not
lost its duty to undo this, or the thread has that duty now. -/
theorem guardStep_spec {c : Creds} (hc : Shared uid c) (hu : uid ≠ 0) {pc : GuardPc} (hpc : Stored uid pc) :
    Shared uid (guardStep c pc).2 ∧ Stored uid (guardStep c pc).1 ∧
      ((guardStep c pc).2.uid.effective = 0 →
        (c.uid.effective = 0 ∧ (Elevates pc → Elevates (guardStep c pc).1)) ∨ Elevates (guardStep c pc).1) := by
  cases pc with
  | outside => exact ⟨hc, hc.effective, fun h => .inl ⟨h, id⟩⟩
  | readUid x => exact ⟨hc, hpc, fun h => .inl ⟨h, id⟩⟩
  | readGid x y =>
    simp only [guardStep]
    split
    · next h => exact ⟨(hc.seteuid (.inl rfl)).1, hpc.resolve_left h.2, fun _ => .inr trivial⟩
    · exact ⟨hc, by simp [Stored], fun h => .inl ⟨h, False.elim⟩⟩
  | elevating x y => exact ⟨(hc.setegid 0).1, by simpa [Stored, guardStep] using hpc, fun _ => .inr rfl⟩
  | holding guard =>
    obtain ⟨prevUid, prevGid⟩ := guard
    cases prevGid with
    | none => exact ⟨hc, hpc, fun h => .inl ⟨h, id⟩⟩
    | some y =>
      refine ⟨(hc.setegid y).1, hpc, fun h => .inl ⟨?_, id⟩⟩
      rw [← (hc.setegid y).2]
      exact h
  | releasing prevUid =>
    cases prevUid with
    | none => exact ⟨hc, trivial, fun h => .inl ⟨h, by simp [Elevates]⟩⟩
    | some x =>
      have hx : x = uid := hpc x rfl
      obtain ⟨hshared, heff⟩ := hc.seteuid (.inr hx)
      exact ⟨hshared, trivial, fun h => absurd (hx.symm.trans (heff.symm.trans h)) hu⟩

/-- What holds in every state, however the calls are interleaved. -/
structure Inv (uid : Nat) (s : GuardSys T) : Prop where
  shared : Shared uid s.creds
  stored : ∀ t, Stored uid (s.threads t)
  elevated : s.main = .dropped → s.creds.uid.effective = 0 → ∃ t, Elevates (s.threads t)

theorem Inv.thread {s : GuardSys T} (h : Inv uid s) (hu : uid ≠ 0) (t : T) :
    Inv uid (s.setThread t (guardStep s.creds (s.threads t))) := by
  obtain ⟨hshared, hstored, heff⟩ := guardStep_spec h.shared hu (h.stored t)
  refine ⟨hshared, fun t' => ?_, fun hm h0 => ?_⟩
  · by_cases ht : t' = t
    · subst ht
      rw [setThread_self]
      exact hstored
    · rw [setThread_of_ne _ ht]
      exact h.stored t'
  · rcases heff h0 with ⟨h0', hkeep⟩ | hnew
    · obtain ⟨t', ht'⟩ := h.elevated hm h0'
      refine ⟨t', ?_⟩
      by_cases ht : t' = t
      · subst ht
        rw [setThread_self]
        exact hkeep ht'
      · rw [setThread_of_ne _ ht]
        exact ht'
    · exact ⟨t, by rw [setThread_self]; exact hnew⟩

theorem Inv.main {s s' : GuardSys T} (h : Inv uid s) (hu : uid ≠ 0) (hs : step uid gid s .main = some s') : Inv uid s' := by
  obtain ⟨⟨pc, c⟩, hstep, rfl⟩ := Option.map_eq_some_iff.1 hs
  have hroot := h.shared.seteuid (.inl rfl)
  suffices H : Shared uid c ∧ (pc = .dropped → c.uid.effective = uid) from
    ⟨H.1, h.stored, fun hpc h0 => absurd ((H.2 hpc).symm.trans h0) hu⟩
  cases hm : s.main with
  | root =>
    rw [hm] at hstep
    obtain ⟨hshared, -⟩ := h.shared.setegid gid
    rw [tryId] at hshared
    cases hcall : s.creds.setegid gid with
    | none =>
      simp only [mainStep, hcall, Option.elim_none, Option.some.injEq, Prod.mk.injEq] at hstep
      obtain ⟨rfl, rfl⟩ := hstep
      exact ⟨h.shared, fun hpc => by cases hpc⟩
    | some c' =>
      simp only [mainStep, hcall, Option.elim_some, Option.some.injEq, Prod.mk.injEq] at hstep
      obtain ⟨rfl, rfl⟩ := hstep
      rw [hcall] at hshared
      exact ⟨hshared, fun hpc => by cases hpc⟩
  | dropping =>
    rw [hm] at hstep
    obtain ⟨hshared, heff⟩ := h.shared.seteuid (x := uid) (.inr rfl)
    rw [tryId] at hshared heff
    cases hcall : s.creds.seteuid uid with
    | none =>
      simp only [mainStep, hcall, Option.elim_none, Option.some.injEq, Prod.mk.injEq] at hstep
      obtain ⟨rfl, rfl⟩ := hstep
      exact ⟨h.shared, fun hpc => by cases hpc⟩
    | some c' =>
      simp only [mainStep, hcall, Option.elim_some, Option.some.injEq, Prod.mk.injEq] at hstep
      obtain ⟨rfl, rfl⟩ := hstep
      rw [hcall] at hshared heff
      exact ⟨hshared, fun _ => heff⟩
  | dropped | failed =>
    rw [hm] at hstep
    simp only [mainStep, if_pos h.shared.recoverable.1, Option.some.injEq, Prod.mk.injEq] at hstep
    obtain ⟨rfl, rfl⟩ := hstep
    exact ⟨hroot.1, fun hpc => by cases hpc⟩
  | elevating =>
    rw [hm] at hstep
    simp only [mainStep, Option.some.injEq, Prod.mk.injEq] at hstep
    obtain ⟨rfl, rfl⟩ := hstep
    exact ⟨(h.shared.setegid 0).1, fun hpc => by cases hpc⟩
  | cleanup =>
    rw [hm] at hstep
    cases hstep

/-- However the calls of any number of threads are interleaved with each other and with the main thread, the process acts as the
invoker again whenever, after the drop of the privileges, no thread has made it root. -/
theorem userRestored_of_reach (hu : uid ≠ 0) {s : GuardSys T} (h : Reach (step uid gid) Any init s) : UserRestored uid s := by
  have hinv : Inv uid s := by
    refine h.invariant (Inv uid) ?_ fun s a s' hi _ hs => ?_
    · exact ⟨⟨⟨rfl, rfl, rfl, rfl⟩, .inl rfl⟩, fun _ => trivial, fun hm => by cases hm⟩
    · cases a with
      | main => exact hi.main hu hs
      | thread t =>
        cases hs
        exact hi.thread hu t
  intro hm hnone
  rcases hinv.shared.effective with h0 | heff
  · obtain ⟨t, ht⟩ := hinv.elevated hm h0
    exact absurd ht (hnone t)
  · exact heff

/-- Two threads whose guards overlap, one of which has read the identifiers before the other one became root. -/
theorem userRestored_overlapping : ∃ s : GuardSys Bool, Reach (step 501 20) Any init s ∧ UserRestored 501 s ∧
    s.main = .dropped ∧ s.creds.uid.effective = 501 := by
  obtain ⟨s, hr, hm, hpc⟩ := exists_reach (step 501 20) Any
    (fun s : GuardSys Bool => s.main = .dropped ∧ ∀ t, s.threads t = .outside) init
    ([.main, .main] ++ List.replicate 2 (.thread true) ++ List.replicate 6 (.thread false) ++ List.replicate 4 (.thread true)) (by decide)
  have hrestored : UserRestored 501 s := userRestored_of_reach (by decide) hr
  exact ⟨s, hr, hrestored, hm, hrestored hm fun t ht => by rw [hpc t] at ht; exact ht⟩

/-! ## One guard after another -/

/-- The identifiers while no thread has a guard. -/
def mainCreds (uid gid : Nat) : MainPc → Creds
  | .root | .failed | .cleanup => ⟨.all 0, .all 0⟩
  | .dropping | .elevating => ⟨.all 0, ⟨0, gid, 0⟩⟩
  | .dropped => ⟨⟨0, uid, 0⟩, ⟨0, gid, 0⟩⟩

/-- After the drop of the privileges the process can become root again. -/
theorem tryId_seteuid_dropped : tryId (Creds.seteuid 0) (mainCreds uid gid .dropped) = mainCreds uid gid .elevating := by
  rw [tryId, show Creds.seteuid 0 (mainCreds uid gid .dropped) = some (mainCreds uid gid .elevating) from
    if_pos (.inr (.inl rfl)), Option.getD_some]

/-- The main thread is not in the middle of a change. -/
def Settled : MainPc → Prop
  | .root | .dropped | .cleanup => True
  | _ => False

/-- What the only thread that may have a guard knows. -/
def ThreadOk (uid gid : Nat) (main : MainPc) (c : Creds) : GuardPc → Prop
  | .outside => c = mainCreds uid gid main
  | .readUid x => x = (mainCreds uid gid main).uid.effective ∧ c = mainCreds uid gid main
  | .readGid x y =>
    x = (mainCreds uid gid main).uid.effective ∧ y = (mainCreds uid gid main).gid.effective ∧ c = mainCreds uid gid main
  | .elevating x y => main = .dropped ∧ x = uid ∧ y = gid ∧ c = ⟨.all 0, ⟨0, gid, 0⟩⟩
  | .holding guard =>
    (main = .dropped ∧ guard = ⟨some uid, some gid⟩ ∧ c = ⟨.all 0, .all 0⟩) ∨
      (main ≠ .dropped ∧ guard = ⟨none, none⟩ ∧ c = mainCreds uid gid main)
  | .releasing prevUid =>
    (main = .dropped ∧ prevUid = some uid ∧ c = ⟨.all 0, ⟨0, gid, 0⟩⟩) ∨
      (main ≠ .dropped ∧ prevUid = none ∧ c = mainCreds uid gid main)

/-- The next call of the only thread that may have a guard. -/
theorem ThreadOk.step (hu : uid ≠ 0) {main : MainPc} (hmain : Settled main) {c : Creds} {pc : GuardPc}
    (h : ThreadOk uid gid main c pc) : ThreadOk uid gid main (guardStep c pc).2 (guardStep c pc).1 := by
  cases pc with
  | outside => exact ⟨congrArg (·.uid.effective) h, h⟩
  | readUid x => exact ⟨h.1, congrArg (·.gid.effective) h.2, h.2⟩
  | readGid x y =>
    obtain ⟨rfl, rfl, rfl⟩ := h
    by_cases hdropped : main = .dropped
    · subst hdropped
      simp only [guardStep]
      rw [if_pos ⟨rfl, hu⟩]
      exact ⟨rfl, rfl, rfl, tryId_seteuid_dropped⟩
    · have hroot : (mainCreds uid gid main).uid.effective = 0 := by
        cases main <;> first | rfl | exact absurd rfl hdropped
      simp only [guardStep]
      rw [if_neg fun hc => hc.2 hroot]
      exact .inr ⟨hdropped, rfl, rfl⟩
  | elevating x y =>
    obtain ⟨rfl, rfl, rfl, rfl⟩ := h
    exact .inl ⟨rfl, rfl, by rw [guardStep, tryId, Creds.setegid_privileged rfl]; rfl⟩
  | holding guard =>
    rcases h with ⟨rfl, rfl, rfl⟩ | ⟨hne, rfl, rfl⟩
    · exact .inl ⟨rfl, rfl, by simp only [guardStep, Option.elim_some]; rw [tryId, Creds.setegid_privileged rfl]; rfl⟩
    · exact .inr ⟨hne, rfl, rfl⟩
  | releasing prevUid =>
    rcases h with ⟨rfl, rfl, rfl⟩ | ⟨hne, rfl, rfl⟩
    · simp only [guardStep, Option.elim_some, ThreadOk]
      rw [tryId, Creds.seteuid_privileged rfl]
      rfl
    · rfl

/-- A guard changes nothing while the main thread is root. -/
theorem ThreadOk.creds {main : MainPc} {c : Creds} {pc : GuardPc} (h : ThreadOk uid gid main c pc) (hm : main ≠ .dropped) :
    c = mainCreds uid gid main := by
  cases pc with
  | outside => exact h
  | readUid x => exact h.2
  | readGid x y => exact h.2.2
  | elevating x y => exact absurd h.1 hm
  | holding guard => exact (h.resolve_left fun hd => hm hd.1).2.2
  | releasing prevUid => exact (h.resolve_left fun hd => hm hd.1).2.2

/-- What holds as long as the guards do not overlap: at most one thread is about to have a guard, has one or drops it. -/
structure AloneInv (uid gid : Nat) (s : GuardSys T) : Prop where
  notFailed : s.main ≠ .failed
  owner : ((∀ t, s.threads t = .outside) ∧ s.creds = mainCreds uid gid s.main) ∨
    ∃ t, (∀ t', t' ≠ t → s.threads t' = .outside) ∧ Settled s.main ∧ ThreadOk uid gid s.main s.creds (s.threads t)

omit [DecidableEq T] in
/-- If no thread has a guard, the identifiers are those of the main thread. -/
theorem AloneInv.creds {s : GuardSys T} (h : AloneInv uid gid s) (hout : ∀ t, s.threads t = .outside) :
    s.creds = mainCreds uid gid s.main := by
  rcases h.owner with ⟨-, hc⟩ | ⟨t, -, -, hok⟩
  · exact hc
  · rw [hout t] at hok
    exact hok

/-- What a thread knows if no other one has a guard. -/
theorem AloneInv.threadOk {s : GuardSys T} (h : AloneInv uid gid s) {t : T} (hout : ∀ t', t' ≠ t → s.threads t' = .outside) :
    ThreadOk uid gid s.main s.creds (s.threads t) := by
  rcases h.owner with ⟨hall, hc⟩ | ⟨t', hothers, -, hok⟩
  · rw [hall t]
    exact hc
  · by_cases ht : t' = t
    · subst ht
      exact hok
    · rw [hout t' ht] at hok
      rw [hothers t (Ne.symm ht)]
      exact hok

theorem AloneInv.thread {s : GuardSys T} (h : AloneInv uid gid s) (hu : uid ≠ 0) {t : T} (ha : Alone s (.thread t)) :
    AloneInv uid gid (s.setThread t (guardStep s.creds (s.threads t))) := by
  obtain ⟨hout, hndrop, hnelev⟩ := ha
  have hsettled : Settled s.main := by
    cases hm : s.main with
    | root | dropped | cleanup => trivial
    | failed => exact absurd hm h.notFailed
    | dropping => exact absurd hm hndrop
    | elevating => exact absurd hm hnelev
  refine ⟨h.notFailed, .inr ⟨t, fun t' ht => ?_, hsettled, ?_⟩⟩
  · rw [setThread_of_ne _ ht]
    exact hout t' ht
  · rw [setThread_self]
    exact (h.threadOk hout).step hu hsettled

theorem AloneInv.main {s s' : GuardSys T} (h : AloneInv uid gid s) (ha : Alone s .main)
    (hs : GuardSys.step uid gid s .main = some s') : AloneInv uid gid s' := by
  obtain ⟨⟨pc, c⟩, hstep, rfl⟩ := Option.map_eq_some_iff.1 hs
  suffices H : pc ≠ .failed ∧ c = mainCreds uid gid pc from ⟨H.1, .inl ⟨ha, H.2⟩⟩
  rw [h.creds ha] at hstep
  cases hm : s.main with
  | failed => exact absurd hm h.notFailed
  | cleanup =>
    rw [hm] at hstep
    cases hstep
  | root =>
    rw [hm, mainStep, mainCreds, Creds.setegid_privileged rfl] at hstep
    cases hstep
    exact ⟨MainPc.noConfusion, rfl⟩
  | dropping =>
    rw [hm, mainStep, mainCreds, Creds.seteuid_privileged rfl] at hstep
    cases hstep
    exact ⟨MainPc.noConfusion, rfl⟩
  | dropped =>
    rw [hm, mainStep, if_pos (show (mainCreds uid gid .dropped).uid.real = 0 from rfl), tryId_seteuid_dropped] at hstep
    cases hstep
    exact ⟨MainPc.noConfusion, rfl⟩
  | elevating =>
    rw [hm, mainStep, mainCreds, tryId, Creds.setegid_privileged rfl] at hstep
    cases hstep
    exact ⟨MainPc.noConfusion, rfl⟩

theorem aloneInv_of_reach (hu : uid ≠ 0) {s : GuardSys T} (h : Reach (step uid gid) Alone init s) : AloneInv uid gid s := by
  refine h.invariant (AloneInv uid gid) ?_ fun s a s' hi ha hs => ?_
  · exact ⟨MainPc.noConfusion, .inl ⟨fun _ => rfl, rfl⟩⟩
  · cases a with
    | main => exact hi.main ha hs
    | thread t =>
      cases hs
      exact hi.thread hu ha

omit [DecidableEq T] in
/-- In the clean-up the process is root in all its identifiers, also while a thread has a guard. -/
theorem AloneInv.creds_cleanup {s : GuardSys T} (h : AloneInv uid gid s) (hm : s.main = .cleanup) : s.creds = ⟨.all 0, .all 0⟩ := by
  have hc : s.creds = mainCreds uid gid s.main := by
    rcases h.owner with ⟨-, hc⟩ | ⟨t, -, -, hok⟩
    · exact hc
    · exact hok.creds (by rw [hm]; exact MainPc.noConfusion)
  rw [hc, hm]
  rfl

/-- As long as guards do not overlap with each other or with the changes of the main thread, whoever has a guard acts as root, and
whoever has none acts as the invoker after the drop of the privileges and as root in the clean-up. -/
theorem faithful_of_alone (hu : uid ≠ 0) {s : GuardSys T} (h : Reach (step uid gid) Alone init s) : Faithful uid gid s := by
  have hinv := aloneInv_of_reach hu h
  refine ⟨fun t guard ht => ?_, fun hm hout => ?_, fun hm => ?_⟩
  · rcases hinv.owner with ⟨hout, -⟩ | ⟨t', hout, hsettled, hok⟩
    · cases (hout t).symm.trans ht
    · have htt : t = t' := by
        by_contra hne
        cases (hout t hne).symm.trans ht
      subst htt
      rw [ht] at hok
      rcases hok with ⟨-, -, hc⟩ | ⟨hne, -, hc⟩
      · rw [hc]
        exact ⟨rfl, rfl⟩
      · rw [hc]
        cases hm : s.main with
        | root | cleanup => exact ⟨rfl, rfl⟩
        | dropped => exact absurd hm hne
        | failed => exact absurd hm hinv.notFailed
        | dropping | elevating =>
          rw [hm] at hsettled
          exact hsettled.elim
  · rw [hinv.creds hout, hm]
    exact ⟨rfl, rfl⟩
  · rw [hinv.creds_cleanup hm]
    exact ⟨rfl, rfl⟩

/-- The guard of `send_quit_cmd` between the drop of the privileges and the clean-up. -/
theorem faithful_sendQuitCmd : ∃ s : GuardSys Bool, Reach (step 501 20) Alone init s ∧ Faithful 501 20 s ∧ s.main = .cleanup := by
  obtain ⟨s, hr, hm⟩ := exists_reach (step 501 20) Alone (fun s : GuardSys Bool => s.main = .cleanup) init
    ([.main, .main] ++ List.replicate 6 (.thread true) ++ [.main, .main]) (by decide)
  exact ⟨s, hr, faithful_of_alone (by decide) hr, hm⟩

end GuardSys

end Anylinuxfs
