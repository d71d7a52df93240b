import Anylinuxfs.Lemmas.Session
import Anylinuxfs.Theorems.RootGuards

/-!
# What a mount gives back

`run_mount_child` against `Lost`, on every way out of it: one lemma for each call that acquires something or touches the stack,
the walk over the program with the rules of `Prog.Hoare`, and the end of the scope.
-/

namespace Anylinuxfs

open Interact (Prog)
open Posix (Creds)
open Transition (Reach)

namespace Session

/-! ## The invariant -/

/-- The call that adds an action of a kind has been made. -/
def Source (calls : List Supervise.Call) : Action → Prop
  | .vfkitSockCleanup => .stage .waitForFile ∈ calls
  | .terminateNetHelper | .vsockCleanup => .stage .netHelperTryWait ∈ calls
  | .removeKeyFile => .stage .prepareKeyFileForVm ∈ calls
  | .waitForVmStatus => .fork ∈ calls
  | .removeApiSocket => .stage .registerVmRecord ∈ calls
  | .restoreServices => .stage .setupRpcbindServices ∈ calls
  | .receiveReport => .subscribe .stdinForwarder ∈ calls
  | .stopStdinForwarder => ∃ id, .stdinForwarderNew id ∈ calls
  | .sendQuitCmd => .waitForNfsServer ∈ calls
  | .removeMountPoint => .mountShare ∈ calls

theorem Source.mono {calls calls' : List Supervise.Call} (hsub : calls ⊆ calls') {a : Action} (h : Source calls a) :
    Source calls' a := by
  cases a with
  | stopStdinForwarder => exact h.imp fun _ hid => hsub hid
  | _ => exact hsub h

/-- What would be lost if the pending actions were run now. -/
def Unregistered (setup : Setup) (env : Env) (calls : List Supervise.Call) : Resource → Prop
  | .mountPoint =>
    .mountShare ∈ calls ∧ setup.customMountPoint = false ∧ env.share.dirCreated = true ∧
      (env.share.chowned && env.share.mounted && env.share.seen) = false
  | r => Lost setup env calls r

/-- The ledger agrees with the calls that have been made. -/
structure Sound (setup : Setup) (env : Env) (w : World) : Prop where
  tidy : w.Tidy
  source : ∀ a, (w.ids a).isSome → Source w.calls a
  rights : setup.os = .linux → w.creds.uid.real = setup.creds.uid.real ∧ (setup.creds.Recoverable → w.creds.Recoverable)
  account : ∀ r, w.Owed r ↔ Unregistered setup env w.calls r
  mountPoint : w.Pending .removeMountPoint ∧ .mountPoint ∈ w.held ↔
    .mountShare ∈ w.calls ∧ setup.customMountPoint = false ∧ env.share.dirCreated = true ∧
      (env.share.chowned && env.share.mounted && env.share.seen) = true

/-- A call is recorded. -/
def World.record (w : World) (c : Supervise.Call) : World := { w with calls := w.calls ++ [c] }

namespace Sound

variable {setup : Setup} {env : Env} {w w' : World} {a : Action} {c : Supervise.Call}

/-- An action whose call has not been made is not known. -/
theorem ids_eq_none (h : Sound setup env w) (ha : ¬Source w.calls a) : w.ids a = none :=
  Option.not_isSome_iff_eq_none.1 fun hsome => ha (h.source a hsome)

theorem source_of_pending (h : Sound setup env w) (ha : w.Pending a) : Source w.calls a := by
  obtain ⟨id, hmem⟩ := ha
  refine h.source a ?_
  rw [h.tidy.entry id a hmem]
  rfl

theorem not_covered (h : Sound setup env w) {r : Resource} (hr : ∀ a, frees a = some r → ¬Source w.calls a) : ¬w.Covered r := by
  rintro ⟨a, ha, hp⟩
  exact hr a ha (h.source_of_pending hp)

/-- The parts of the invariant that a call can change. -/
theorem record (h : Sound setup env w) (htidy : w'.Tidy) (hcalls : w'.calls = w.calls)
    (hids : ∀ a, (w'.ids a).isSome → (w.ids a).isSome ∨ Source (w.calls ++ [c]) a)
    (hcreds : w'.creds = w.creds)
    (haccount : ∀ r, w'.Owed r ↔ Unregistered setup env (w.calls ++ [c]) r)
    (hmount : w'.Pending .removeMountPoint ∧ .mountPoint ∈ w'.held ↔
      .mountShare ∈ w.calls ++ [c] ∧ setup.customMountPoint = false ∧ env.share.dirCreated = true ∧
        (env.share.chowned && env.share.mounted && env.share.seen) = true) :
    Sound setup env (w'.record c) where
  tidy := htidy.congr rfl rfl rfl
  source a ha := by
    change Source (w'.calls ++ [c]) a
    rw [hcalls]
    rcases hids a ha with hold | hnew
    · exact (h.source a hold).mono (List.subset_append_left _ _)
    · exact hnew
  rights := by
    change setup.os = .linux → w'.creds.uid.real = _ ∧ (_ → w'.creds.Recoverable)
    rw [hcreds]
    exact h.rights
  account := by
    change ∀ r, w'.Owed r ↔ Unregistered setup env (w'.calls ++ [c]) r
    rw [hcalls]
    exact haccount
  mountPoint := by
    change w'.Pending _ ∧ _ ∈ w'.held ↔ _ ∈ w'.calls ++ [c] ∧ _
    rw [hcalls]
    exact hmount

/-- A call that neither acquires anything nor touches the stack. -/
theorem record_self (h : Sound setup env w) (haccount : ∀ r, Unregistered setup env (w.calls ++ [c]) r ↔
      Unregistered setup env w.calls r) (hc : c ≠ .mountShare) : Sound setup env (w.record c) := by
  refine h.record h.tidy rfl (fun _ => .inl) rfl (fun r => (h.account r).trans (haccount r).symm) ?_
  rw [h.mountPoint]
  simp [hc.symm]

theorem startNetHelper (h : Sound setup env w) (hnew : .stage .startNetHelper ∉ w.calls) (hwait : .stage .waitForFile ∉ w.calls)
    (htry : .stage .netHelperTryWait ∉ w.calls) :
    Sound setup env ((Session.startNetHelper env.helper w).2.record (.stage .startNetHelper)) := by
  unfold Session.startNetHelper
  by_cases hstarted : env.helper.started = true
  · rw [if_neg (by simpa [NetHelperEnv.started] using hstarted)]
    have hproc : ¬w.Covered .netHelper := h.not_covered fun a ha hsrc => by cases a <;> cases ha; exact htry hsrc
    have hsock : ¬(w.acquire .netHelper).Covered .vfkitSock :=
      h.not_covered fun a ha hsrc => by cases a <;> cases ha; exact hwait hsrc
    refine h.record (h.tidy.congr rfl rfl rfl) rfl (fun _ => .inl) rfl (fun r => ?_) ?_
    · rw [World.owed_acquire, World.owed_acquire, h.account]
      cases r <;> simp [Unregistered, Lost, StaysMounted, hstarted, hproc, hsock, hnew, hwait, htry]
    · simpa [World.acquire, World.Pending] using h.mountPoint
  · rw [if_pos (by simpa [NetHelperEnv.started, imp_iff_not_or] using hstarted)]
    refine h.record_self (fun r => ?_) (by simp)
    cases r <;> simp [Unregistered, Lost, StaysMounted, hstarted]

/-- After an addition, an action that is known is the added one or was known before. -/
theorem ids_add {b : Action} (hb : ((w.add a).ids b).isSome) : (w.ids b).isSome ∨ b = a := by
  by_cases hba : b = a
  · exact .inr hba
  · rw [show (w.add a).ids b = w.ids b from Function.update_of_ne hba _ w.ids] at hb
    exact .inl hb

/-- A call that adds an action. -/
theorem record_add (h : Sound setup env w) (hnew : ¬Source w.calls a) (hsrc : Source (w.calls ++ [c]) a)
    (haccount : ∀ r, w.Owed r ∧ frees a ≠ some r ↔ Unregistered setup env (w.calls ++ [c]) r) (ha : a ≠ .removeMountPoint)
    (hc : c ≠ .mountShare) : Sound setup env ((w.add a).record c) := by
  refine h.record (h.tidy.add (h.ids_eq_none hnew)) rfl (fun b hb => ?_) rfl (fun r => World.owed_add.trans (haccount r)) ?_
  · rcases ids_add hb with hb | rfl
    · exact .inl hb
    · exact .inr hsrc
  · rw [World.pending_add, or_iff_left ha.symm]
    simpa [hc.symm] using h.mountPoint

theorem waitForFile (h : Sound setup env w) (hnew : .stage .waitForFile ∉ w.calls) :
    Sound setup env ((step setup env w (.stage .waitForFile)).2.record (.stage .waitForFile)) := by
  simp only [step]
  split
  · next hfile =>
    refine h.record_add hnew (by simp [Source]) (fun r => ?_) (by simp) (by simp)
    rw [h.account]
    cases r <;> simp [Unregistered, Lost, StaysMounted, frees, hfile]
  · next hfile =>
    refine h.record_self (fun r => ?_) (by simp)
    cases r <;> simp [Unregistered, Lost, StaysMounted, hfile]

theorem netHelperTryWait (h : Sound setup env w) (hnew : .stage .netHelperTryWait ∉ w.calls) :
    Sound setup env ((step setup env w (.stage .netHelperTryWait)).2.record (.stage .netHelperTryWait)) := by
  simp only [step]
  split
  · have hproc := h.ids_eq_none (a := .terminateNetHelper) hnew
    have hsock : (w.add .terminateNetHelper).ids .vsockCleanup = none := h.ids_eq_none (a := .vsockCleanup) hnew
    refine h.record ((h.tidy.add hproc).add hsock) rfl (fun b hb => ?_) rfl (fun r => ?_) ?_
    · rcases ids_add hb with hb | rfl
      · exact (ids_add hb).imp_right fun hba => by rw [hba]; simp [Source]
      · exact .inr (by simp [Source])
    · rw [World.owed_add, World.owed_add, h.account]
      cases r <;> simp [Unregistered, Lost, StaysMounted, frees]
    · rw [World.pending_add, World.pending_add]
      simpa [World.add] using h.mountPoint
  · refine h.record (h.tidy.congr rfl rfl rfl) rfl (fun _ => .inl) rfl (fun r => ?_) ?_
    · rw [World.owed_lose, h.account]
      cases r <;> simp [Unregistered, Lost, StaysMounted]
    · simpa [World.lose, World.Pending] using h.mountPoint

theorem prepareKeyFileForVm (h : Sound setup env w) (hnew : .stage .prepareKeyFileForVm ∉ w.calls) :
    Sound setup env ((step setup env w (.stage .prepareKeyFileForVm)).2.record (.stage .prepareKeyFileForVm)) := by
  simp only [step]
  split
  · next hgiven =>
    unfold Session.prepareKeyFileForVm
    by_cases hcreated : env.keyFile.created = true
    · rw [if_neg (by simpa using hcreated)]
      cases hos : setup.guestOs with
      | linux =>
        have hfile : ¬w.Covered .keyFile := h.not_covered fun a ha hsrc => by cases a <;> cases ha; exact hnew hsrc
        dsimp only
        split
        · next hfails =>
          refine h.record (h.tidy.congr rfl rfl rfl) rfl (fun _ => .inl) rfl (fun r => ?_) ?_
          · rw [World.owed_acquire, h.account]
            cases r <;> simp [Unregistered, Lost, StaysMounted, KeyFileEnv.failsLate, hgiven, hos, hcreated, hfails, hfile, hnew]
          · simpa [World.acquire, World.Pending] using h.mountPoint
        · next hfails =>
          have hkey : (w.acquire .keyFile).ids .removeKeyFile = none := h.ids_eq_none (a := .removeKeyFile) hnew
          refine h.record ((h.tidy.congr rfl rfl rfl : (w.acquire .keyFile).Tidy).add hkey) rfl (fun b hb => ?_) rfl (fun r => ?_) ?_
          · exact (ids_add hb).imp_right fun hba => by rw [hba]; simp [Source]
          · rw [World.owed_add, World.owed_acquire, h.account]
            cases r <;> simp [Unregistered, Lost, StaysMounted, KeyFileEnv.failsLate, hos, hfails, hnew, frees]
          · rw [World.pending_add]
            simpa [World.add, World.acquire, World.Pending] using h.mountPoint
      | freeBsd =>
        have hdir : ¬w.Covered .keyFileDir := h.not_covered fun a ha _ => by cases a <;> cases ha
        dsimp only
        split
        · next hfails =>
          refine h.record (h.tidy.congr rfl rfl rfl) rfl (fun _ => .inl) rfl (fun r => ?_) ?_
          · rw [World.owed_acquire, h.account]
            cases r <;> simp [Unregistered, Lost, StaysMounted, KeyFileEnv.failsLate, hgiven, hos, hcreated, hfails, hdir, hnew]
          · simpa [World.acquire, World.Pending] using h.mountPoint
        · next hfails =>
          refine h.record (h.tidy.congr rfl rfl rfl) rfl (fun _ => .inl) rfl (fun r => ?_) ?_
          · rw [World.owed_lose, World.owed_acquire, h.account]
            cases r <;> simp [Unregistered, Lost, StaysMounted, KeyFileEnv.failsLate, hos, hfails, hnew]
          · simpa [World.lose, World.acquire, World.Pending] using h.mountPoint
    · rw [if_pos (by simpa using hcreated)]
      refine h.record_self (fun r => ?_) (by simp)
      cases r <;> simp [Unregistered, Lost, StaysMounted, KeyFileEnv.failsLate, hcreated]
  · next hgiven =>
    refine h.record_self (fun r => ?_) (by simp)
    cases r <;> simp [Unregistered, Lost, StaysMounted, hgiven]

/-- The parent's side of the fork; the control socket of the VM is in the charge of an action already. -/
theorem fork (h : Sound setup env w) (hnew : .fork ∉ w.calls) (hwait : .waitpid ∉ w.calls) (hvsock : w.Pending .vsockCleanup) :
    Sound setup env ((((w.acquire .vm).acquire .vsock).add .waitForVmStatus).record .fork) := by
  have hvm : ((w.acquire .vm).acquire .vsock).ids .waitForVmStatus = none := h.ids_eq_none (a := .waitForVmStatus) hnew
  have htidy : ((w.acquire .vm).acquire .vsock).Tidy := h.tidy.congr rfl rfl rfl
  have hcovered : (w.acquire .vm).Covered .vsock := ⟨.vsockCleanup, rfl, hvsock⟩
  refine h.record (htidy.add hvm) rfl (fun b hb => ?_) rfl (fun r => ?_) ?_
  · exact (ids_add hb).imp_right fun hba => by rw [hba]; simp [Source]
  · rw [World.owed_add, World.owed_acquire, World.owed_acquire, h.account]
    cases r <;> simp [Unregistered, Lost, StaysMounted, frees, hcovered, hwait]
  · rw [World.pending_add]
    simpa [World.acquire, World.Pending] using h.mountPoint

theorem registerVmRecord (h : Sound setup env w) (hnew : .stage .registerVmRecord ∉ w.calls) :
    Sound setup env ((step setup env w (.stage .registerVmRecord)).2.record (.stage .registerVmRecord)) := by
  simp only [step]
  split
  · have hsock : (w.acquire .apiSocket).ids .removeApiSocket = none := h.ids_eq_none (a := .removeApiSocket) hnew
    have htidy : (w.acquire .apiSocket).Tidy := h.tidy.congr rfl rfl rfl
    refine h.record (htidy.add hsock) rfl (fun b hb => ?_) rfl (fun r => ?_) ?_
    · exact (ids_add hb).imp_right fun hba => by rw [hba]; simp [Source]
    · rw [World.owed_add, World.owed_acquire, h.account]
      cases r <;> simp [Unregistered, Lost, StaysMounted, frees]
    · rw [World.pending_add]
      simpa [World.acquire, World.Pending] using h.mountPoint
  · refine h.record_self (fun r => ?_) (by simp)
    cases r <;> simp [Unregistered, Lost, StaysMounted]

theorem setupRpcbindServices (h : Sound setup env w) (hnew : .stage .setupRpcbindServices ∉ w.calls) :
    Sound setup env ((Session.setupRpcbindServices env.rpcbind w).2.record (.stage .setupRpcbindServices)) := by
  have hlost : ∀ r, Unregistered setup env (w.calls ++ [.stage .setupRpcbindServices]) r ↔ Unregistered setup env w.calls r := by
    intro r
    cases r <;> simp [Unregistered, Lost, StaysMounted]
  unfold Session.setupRpcbindServices
  split
  · exact h.record_self hlost (by simp)
  · have hrestored : ∀ r, w.Owed r ∧ frees .restoreServices ≠ some r ↔ w.Owed r := by
      intro r
      rw [h.account]
      cases r <;> simp [Unregistered, Lost, frees]
    dsimp only
    split
    · exact h.record_add hnew (by simp [Source]) (fun r => (hrestored r).trans ((h.account r).trans (hlost r).symm)) (by simp) (by simp)
    · have hcovered : (w.add .restoreServices).Covered .rpcbind := World.covered_add.2 (.inr rfl)
      refine h.record ((h.tidy.add (h.ids_eq_none (a := .restoreServices) hnew)).congr rfl rfl rfl) rfl (fun b hb => ?_) rfl (fun r => ?_) ?_
      · exact (ids_add hb).imp_right fun hba => by rw [hba]; simp [Source]
      · rw [World.owed_acquire, World.owed_add, hrestored, h.account, hlost]
        simp [hcovered]
      · rw [World.pending_acquire, World.pending_add]
        simpa [World.acquire] using h.mountPoint

theorem subscribe (h : Sound setup env w) (hnew : .subscribe .stdinForwarder ∉ w.calls) :
    Sound setup env ((w.add .receiveReport).record (.subscribe .stdinForwarder)) := by
  refine h.record_add hnew (by simp [Source]) (fun r => ?_) (by simp) (by simp)
  rw [h.account]
  cases r <;> simp [Unregistered, Lost, StaysMounted, frees]

theorem stdinForwarderNew (h : Sound setup env w) {id : Nat} (hnew : ∀ id, .stdinForwarderNew id ∉ w.calls) :
    Sound setup env ((step setup env w (.stdinForwarderNew id)).2.record (.stdinForwarderNew id)) := by
  have hsrc : ¬Source w.calls .stopStdinForwarder := fun hsrc => hsrc.elim hnew
  simp only [step]
  split
  · have hids : (w.acquire .stdinForwarder).ids .stopStdinForwarder = none := h.ids_eq_none hsrc
    have htidy : (w.acquire .stdinForwarder).Tidy := h.tidy.congr rfl rfl rfl
    refine h.record (htidy.add hids) rfl (fun b hb => ?_) rfl (fun r => ?_) ?_
    · exact (ids_add hb).imp_right fun hba => by rw [hba]; simp [Source]
    · rw [World.owed_add, World.owed_acquire, h.account]
      cases r <;> simp [Unregistered, Lost, StaysMounted, frees]
    · rw [World.pending_add]
      simpa [World.acquire, World.Pending] using h.mountPoint
  · refine h.record_self (fun r => ?_) (by simp)
    cases r <;> simp [Unregistered, Lost, StaysMounted]

theorem waitForNfsServer (h : Sound setup env w) (hnew : .waitForNfsServer ∉ w.calls) :
    Sound setup env ((step setup env w .waitForNfsServer).2.record .waitForNfsServer) := by
  have hlost : ∀ r, Unregistered setup env (w.calls ++ [.waitForNfsServer]) r ↔ Unregistered setup env w.calls r := by
    intro r
    cases r <;> simp [Unregistered, Lost, StaysMounted]
  simp only [step]
  split
  · refine h.record_add hnew (by simp [Source]) (fun r => ?_) (by simp) (by simp)
    rw [hlost, h.account]
    cases r <;> simp [frees]
  · exact h.record_self hlost (by simp)

theorem waitForUnmount (h : Sound setup env w) :
    Sound setup env ((step setup env w .waitForUnmount).2.record .waitForUnmount) := by
  simp only [step]
  split
  · next hunmounted =>
    refine h.record (h.tidy.congr rfl rfl rfl) rfl (fun _ => .inl) rfl (fun r => ?_) ?_
    · rw [World.owed_lose, h.account]
      cases r <;> simp [Unregistered, Lost, StaysMounted, hunmounted]
    · simpa [World.lose, World.Pending] using h.mountPoint
  · next hunmounted =>
    refine h.record_self (fun r => ?_) (by simp)
    cases r <;> simp [Unregistered, Lost, StaysMounted, hunmounted]

theorem sendQuitCmd (h : Sound setup env w) :
    Sound setup env ((w.remove .sendQuitCmd).record (.stage .sendQuitCmd)) := by
  rw [h.tidy.remove]
  refine h.record (h.tidy.without _) rfl (fun _ => .inl) rfl (fun r => ?_) ?_
  · rw [World.owed_without, h.account]
    cases r <;> simp [Unregistered, Lost, StaysMounted, frees]
  · rw [World.pending_without]
    simpa using h.mountPoint

/-- The end of the VM, which is held until then. -/
theorem waitpid (h : Sound setup env w) (hvm : .vm ∈ w.held) :
    Sound setup env ((step setup env w .waitpid).2.record .waitpid) := by
  simp only [step]
  rw [h.tidy.remove]
  split
  · next hreaped =>
    refine h.record ((h.tidy.without .waitForVmStatus).congr rfl rfl rfl) rfl (fun _ => .inl) rfl (fun r => ?_) ?_
    · rw [World.owed_lose, World.owed_without, h.account]
      cases r <;> simp [Unregistered, Lost, StaysMounted, frees, hreaped]
    · have hmount := h.mountPoint
      rw [World.pending_lose, World.pending_without]
      simpa [World.lose] using hmount
  · next hreaped =>
    refine h.record (h.tidy.without _) rfl (fun _ => .inl) rfl (fun r => ?_) ?_
    · rw [World.owed_without, h.account]
      cases r <;> simp [Unregistered, Lost, StaysMounted, frees, hreaped, hvm]
    · rw [World.pending_without]
      simpa using h.mountPoint

/-- What `NfsShareSetup::mount` leaves. -/
theorem owed_mountShare (h : Sound setup env w) (hnew : .mountShare ∉ w.calls) (r : Resource) :
    (Session.mountShare setup.customMountPoint env.share w).2.Owed r ↔
      Unregistered setup env w.calls r ∨ (r = .nfsMount ∧ env.share.lands setup.customMountPoint = true) ∨
        (r = .mountPoint ∧ setup.customMountPoint = false ∧ env.share.dirCreated = true) := by
  have hnfs : ∀ w : World, ¬w.Covered .nfsMount := fun w hc => hc.elim fun a ha => by cases a <;> cases ha.1
  have hpoint : ¬w.Covered .mountPoint := h.not_covered fun a ha hsrc => by cases a <;> cases ha; exact hnew hsrc
  unfold Session.mountShare
  cases hcustom : setup.customMountPoint <;> cases hdir : env.share.dirCreated <;> cases hmounted : env.share.mounted <;>
    cases hchowned : env.share.chowned <;>
    simp [ShareEnv.lands, hdir, hmounted, hchowned, hnfs, hpoint, h.account, or_assoc, or_comm (a := r = .mountPoint)]

theorem mem_held_mountShare (customMountPoint : Bool) (env : ShareEnv) (w : World) :
    .mountPoint ∈ (Session.mountShare customMountPoint env w).2.held ↔
      .mountPoint ∈ w.held ∨ (customMountPoint = false ∧ env.dirCreated = true) := by
  unfold Session.mountShare
  cases customMountPoint <;> cases hdir : env.dirCreated <;> cases hmounted : env.mounted <;> cases hchowned : env.chowned <;>
    simp [World.acquire]

theorem mountShare (h : Sound setup env w) (hnew : .mountShare ∉ w.calls) (hunmount : .waitForUnmount ∉ w.calls) :
    Sound setup env ((step setup env w .mountShare).2.record .mountShare) := by
  obtain ⟨hmounted, more, hw₁⟩ := mountShare_frame setup.customMountPoint env.share w
  have howed := h.owed_mountShare hnew
  have hpoint := mem_held_mountShare setup.customMountPoint env.share w
  have hnot : ¬w.Pending .removeMountPoint := fun hp => hnew (h.source_of_pending hp)
  have hlands : ∀ r, Unregistered setup env (w.calls ++ [.mountShare]) r ↔
      Unregistered setup env w.calls r ∨ (r = .nfsMount ∧ env.share.lands setup.customMountPoint = true) ∨
        (r = .mountPoint ∧ setup.customMountPoint = false ∧ env.share.dirCreated = true ∧
          (env.share.chowned && env.share.mounted && env.share.seen) = false) := by
    intro r
    cases r <;> simp [Unregistered, Lost, StaysMounted, hnew, hunmount]
  simp only [step, mountAndWait]
  rw [hmounted]
  rw [hw₁] at howed hpoint ⊢
  generalize hw₁' : ({ w with held := more ++ w.held } : World) = w₁ at howed hpoint ⊢
  have htidy : w₁.Tidy := h.tidy.congr (by rw [← hw₁']) (by rw [← hw₁']) (by rw [← hw₁'])
  obtain ⟨htidy₂, hids, hcreds, hcalls, hpending, hheld⟩ := htidy.callNow_frame (a := .stopStdinForwarder) setup.os rfl
  have howed₂ : ∀ r, (w₁.callNow setup.os .stopStdinForwarder).Owed r ↔ w₁.Owed r := fun r => htidy.owed_callNow rfl
  generalize w₁.callNow setup.os .stopStdinForwarder = w₂ at htidy₂ hids hcreds hcalls hpending hheld howed₂ ⊢
  subst hw₁'
  have hpending₂ : ¬w₂.Pending .removeMountPoint := fun hp => hnot ((hpending _ (by simp)).1 hp)
  have hheld₂ : .mountPoint ∈ w₂.held ↔ .mountPoint ∈ w.held ∨ (setup.customMountPoint = false ∧ env.share.dirCreated = true) :=
    (hheld _ (by simp [frees])).trans hpoint
  have hrecord : Unregistered setup env w.calls .mountPoint ↔ False := by simp [Unregistered, hnew]
  by_cases hfound : (env.share.lands setup.customMountPoint && env.share.seen) = true
  · rw [if_pos hfound]
    obtain ⟨hland, hseen⟩ := Bool.and_eq_true_iff.1 hfound
    cases hcustom : setup.customMountPoint with
    | true =>
      refine h.record htidy₂ hcalls (fun a ha => .inl (hids ▸ ha)) hcreds (fun r => ?_) (by simp [hpending₂, hcustom])
      rw [if_pos rfl, howed₂, howed, hlands]
      simp [hcustom]
    | false =>
      rw [hcustom] at hland
      obtain ⟨hmount, hdir, hchown⟩ : env.share.mounted = true ∧ env.share.dirCreated = true ∧ env.share.chowned = true := by
        simpa [ShareEnv.lands] using hland
      have hids₂ : w₂.ids .removeMountPoint = none := by
        rw [hids]
        exact h.ids_eq_none hnew
      rw [if_neg Bool.false_ne_true]
      refine h.record (htidy₂.add hids₂) hcalls (fun b hb => ?_) hcreds (fun r => ?_) ?_
      · rcases ids_add hb with hb | rfl
        · exact .inl (hids ▸ hb)
        · exact .inr (by simp [Source])
      · rw [World.owed_add, howed₂, howed, hlands]
        cases r <;> simp [hrecord, frees, hmount, hchown, hseen]
      · rw [World.pending_add]
        simp [hheld₂, hcustom, hdir, hmount, hchown, hseen]
  · rw [if_neg hfound]
    have hfails : setup.customMountPoint = false → env.share.dirCreated = true →
        (env.share.chowned && env.share.mounted && env.share.seen) = false := by
      intro hcustom hdir
      rw [hcustom, ShareEnv.lands, hdir, Bool.false_or, Bool.true_and, Bool.not_eq_true, Bool.and_comm env.share.mounted] at hfound
      exact hfound
    refine h.record htidy₂ hcalls (fun a ha => .inl (hids ▸ ha)) hcreds (fun r => ?_) ?_
    · rw [howed₂, howed, hlands]
      refine or_congr_right (or_congr_right (and_congr_right fun _ => and_congr_right fun hcustom => ?_))
      exact ⟨fun hdir => ⟨hdir, hfails hcustom hdir⟩, fun hdir => hdir.1⟩
    · refine iff_of_false (fun hp => hpending₂ hp.1) ?_
      rintro ⟨-, hcustom, hdir, hall⟩
      rw [hfails hcustom hdir] at hall
      cases hall

/-- A change of the identifiers on Linux. -/
theorem changeIds (h : Sound setup env w) (call : PrivCall) {creds : Creds} {what : Supervise.Stage}
    (hcreds : setup.os = .linux → creds = call.after .linux setup.privilege w.creds) (hwhat : what = .dropEffectivePrivileges ∨
      what = .elevateEffectivePrivileges ∨ what = .dropPrivileges) :
    Sound setup env (({ w with creds := creds } : World).record (.stage what)) := by
  have hself : Sound setup env (w.record (.stage what)) := by
    refine h.record_self (fun r => ?_) (by simp)
    rcases hwhat with rfl | rfl | rfl <;> cases r <;> simp [Unregistered, Lost, StaysMounted]
  refine ⟨hself.tidy.congr rfl rfl rfl, hself.source, fun hos => ?_, hself.account, hself.mountPoint⟩
  change creds.uid.real = _ ∧ (_ → creds.Recoverable)
  rw [hcreds hos]
  exact ⟨(uid_real_after _ _ _).trans (h.rights hos).1, fun hroot => recoverable_after ((h.rights hos).2 hroot) _ _⟩

end Sound

/-! ## The order of the calls -/

/-- The place of a call among those that the ledger depends on. -/
def rank : Supervise.Call → Nat
  | .stage .startNetHelper => 1
  | .stage .waitForFile => 2
  | .stage .netHelperTryWait => 3
  | .stage .prepareKeyFileForVm => 4
  | .fork => 5
  | .stage .registerVmRecord => 6
  | .stage .setupRpcbindServices => 7
  | .subscribe .stdinForwarder => 8
  | .stdinForwarderNew _ => 9
  | .waitForNfsServer => 10
  | .mountShare => 11
  | .waitForUnmount => 12
  | .waitpid => 13
  | _ => 0

/-- The ledger is sound, and no call from a place on has been made. Up to the fork no action has been run, right before it an
action is in charge of the control socket, and after it the VM runs. -/
structure At (setup : Setup) (env : Env) (n : Nat) (w : World) : Prop where
  sound : Sound setup env w
  before : ∀ c ∈ w.calls, rank c < n
  quiet : n ≤ 5 → w.cleanups = []
  vsock : n = 4 ∨ n = 5 → w.Pending .vsockCleanup
  vm : 5 < n → .vm ∈ w.held

variable {setup : Setup} {env : Env}

/-- Nothing but these calls matters. -/
theorem lost_congr {calls calls' : List Supervise.Call} (h : ∀ c, rank c ≠ 0 → (c ∈ calls' ↔ c ∈ calls)) (r : Resource) :
    Lost setup env calls' r ↔ Lost setup env calls r := by
  cases r <;> simp only [Lost, StaysMounted, h (.stage .startNetHelper) (by decide), h (.stage .waitForFile) (by decide),
    h (.stage .netHelperTryWait) (by decide), h (.stage .prepareKeyFileForVm) (by decide), h .mountShare (by decide),
    h .waitForUnmount (by decide), h .waitpid (by decide)]

theorem unregistered_congr {calls calls' : List Supervise.Call} (h : ∀ c, rank c ≠ 0 → (c ∈ calls' ↔ c ∈ calls)) (r : Resource) :
    Unregistered setup env calls' r ↔ Unregistered setup env calls r := by
  cases r with
  | mountPoint => simp only [Unregistered, h .mountShare (by decide)]
  | _ =>
    simp only [Unregistered]
    exact lost_congr h _

theorem mem_record {calls : List Supervise.Call} {c c' : Supervise.Call} (hc : rank c = 0) (hc' : rank c' ≠ 0) :
    c' ∈ calls ++ [c] ↔ c' ∈ calls := by
  rw [List.mem_append, List.mem_singleton, or_iff_left]
  rintro rfl
  exact hc' hc

theorem At.fresh {n : Nat} {w : World} (h : At setup env n w) {c : Supervise.Call} (hc : n ≤ rank c) : c ∉ w.calls :=
  fun hmem => absurd (h.before c hmem) (Nat.not_lt.2 hc)

/-- A call that the ledger depends on, made in its place. -/
theorem At.sound_impl {w : World} {c : Supervise.Call} (h : At setup env (rank c) w) (hrank : 0 < rank c) (hfork : c ≠ .fork) :
    Sound setup env (impl setup env c w).2 := by
  have hfresh : ∀ c', rank c ≤ rank c' → c' ∉ w.calls := fun c' hc' => h.fresh hc'
  cases c with
  | stage what =>
    cases what with
    | startNetHelper => exact h.sound.startNetHelper (hfresh _ le_rfl) (hfresh _ (by simp [rank])) (hfresh _ (by simp [rank]))
    | waitForFile => exact h.sound.waitForFile (hfresh _ le_rfl)
    | netHelperTryWait => exact h.sound.netHelperTryWait (hfresh _ le_rfl)
    | prepareKeyFileForVm => exact h.sound.prepareKeyFileForVm (hfresh _ le_rfl)
    | registerVmRecord => exact h.sound.registerVmRecord (hfresh _ le_rfl)
    | setupRpcbindServices => exact h.sound.setupRpcbindServices (hfresh _ le_rfl)
    | _ => cases hrank
  | fork => exact absurd rfl hfork
  | subscribe holder =>
    cases holder with
    | stdinForwarder => exact h.sound.subscribe (hfresh _ le_rfl)
    | eventSession => cases hrank
  | stdinForwarderNew id => exact h.sound.stdinForwarderNew fun id' => hfresh _ le_rfl
  | waitForNfsServer => exact h.sound.waitForNfsServer (hfresh _ le_rfl)
  | mountShare => exact h.sound.mountShare (hfresh _ le_rfl) (hfresh _ (by simp [rank]))
  | waitForUnmount => exact h.sound.waitForUnmount
  | waitpid => exact h.sound.waitpid (h.vm (by decide))
  | _ => cases hrank

/-- Any other call, made anywhere. -/
theorem Sound.sound_impl {w : World} (h : Sound setup env w) {c : Supervise.Call} (hrank : rank c = 0) (hdrop : c ≠ .dropDeferred) :
    Sound setup env (impl setup env c w).2 := by
  have hself : ∀ c, rank c = 0 → Sound setup env (w.record c) := by
    intro c hc
    exact h.record_self (unregistered_congr fun _ => mem_record hc) (by rintro rfl; cases hc)
  cases c with
  | stage what =>
    cases what with
    | dropEffectivePrivileges => exact h.changeIds .dropEffectivePrivileges (fun _ => rfl) (.inl rfl)
    | elevateEffectivePrivileges => exact h.changeIds .elevateEffectivePrivileges (fun _ => rfl) (.inr (.inl rfl))
    | dropPrivileges =>
      refine h.changeIds .dropPrivileges (fun hos => ?_) (.inr (.inr rfl))
      rw [hos]
      rfl
    | sendQuitCmd => exact h.sendQuitCmd
    | startNetHelper | waitForFile | netHelperTryWait | prepareKeyFileForVm | registerVmRecord | setupRpcbindServices => cases hrank
    | _ => exact hself _ rfl
  | subscribe holder =>
    cases holder with
    | stdinForwarder => cases hrank
    | eventSession => exact hself _ rfl
  | dropDeferred => exact absurd rfl hdrop
  | fork | stdinForwarderNew id | waitForNfsServer | mountShare | waitForUnmount | waitpid => cases hrank
  | _ => exact hself _ rfl

/-- A call is recorded behind those before it. -/
theorem At.before_impl {w : World} {c : Supervise.Call} (h : At setup env (rank c) w) (hdrop : c ≠ .dropDeferred) :
    ∀ c' ∈ (impl setup env c w).2.calls, rank c' < rank c + 1 := by
  intro c' hc'
  change c' ∈ (step setup env w c).2.calls ++ [c] at hc'
  rw [(step_frame h.sound.tidy hdrop).1] at hc'
  rcases List.mem_append.1 hc' with hc' | hc'
  · exact Nat.lt_succ_of_lt (h.before c' hc')
  · rw [List.mem_singleton.1 hc']
    exact Nat.lt_succ_self _

/-- The place after a call. -/
theorem At.next {w : World} {c : Supervise.Call} (h : At setup env (rank c) w) (hrank : 0 < rank c) (hfork : c ≠ .fork)
    (hwait : c ≠ .waitpid) (htry : c = .stage .netHelperTryWait → env.answers (.stage .netHelperTryWait) = true) :
    At setup env (rank c + 1) (impl setup env c w).2 := by
  have hdrop : c ≠ .dropDeferred := by rintro rfl; cases hrank
  obtain ⟨-, hran, hvm⟩ := step_frame h.sound.tidy hdrop
  refine ⟨h.sound_impl hrank hfork, h.before_impl hdrop, fun hn => ?_, fun hn => ?_, fun hn => ?_⟩
  · exact (hran (by rintro rfl; simp [rank] at hn)).trans (h.quiet (by omega))
  · obtain rfl | rfl : c = .stage .netHelperTryWait ∨ c = .stage .prepareKeyFileForVm := by
      unfold rank at hn
      split at hn <;> simp at hn ⊢
    · simp only [impl, step]
      rw [if_pos (htry rfl)]
      exact World.pending_add.2 (.inr rfl)
    · have hvsock := h.vsock (.inl rfl)
      simp only [impl, step, prepareKeyFileForVm]
      split
      · split
        · exact hvsock
        · split <;> split <;> first | exact hvsock | exact World.pending_add.2 (.inl hvsock)
      · exact hvsock
  · refine hvm hwait (h.vm (lt_of_le_of_ne (Nat.le_of_lt_succ hn) fun heq => hfork ?_))
    unfold rank at heq
    split at heq <;> first | rfl | cases heq

/-- The place does not change with a call that the ledger does not depend on. -/
theorem At.other {n : Nat} {w : World} {c : Supervise.Call} (h : At setup env n w) (hrank : rank c = 0) (hdrop : c ≠ .dropDeferred)
    (hn : n = 1 ∨ 5 < n) : At setup env n (impl setup env c w).2 := by
  obtain ⟨hcalls, hran, hvm⟩ := step_frame h.sound.tidy hdrop
  refine ⟨h.sound.sound_impl hrank hdrop, fun c' hc' => ?_, fun hn' => ?_, fun hn' => by omega, fun hn' => ?_⟩
  · change c' ∈ (step setup env w c).2.calls ++ [c] at hc'
    rw [hcalls] at hc'
    rcases List.mem_append.1 hc' with hc' | hc'
    · exact h.before c' hc'
    · rw [List.mem_singleton.1 hc', hrank]
      omega
  · exact (hran (by rintro rfl; cases hrank)).trans (h.quiet hn')
  · exact hvm (by rintro rfl; cases hrank) (h.vm hn')

theorem At.mono {n m : Nat} {w : World} (h : At setup env n w) (hn : 5 < n) (hm : n ≤ m) : At setup env m w :=
  ⟨h.sound, fun c hc => lt_of_lt_of_le (h.before c hc) hm, fun hm' => by omega, fun hm' => by omega, fun _ => h.vm hn⟩

/-! ## The end of the scope -/

/-- The process at the end of the scope, in front of the clean-ups. -/
def World.elevated (os : HostOs) (w : World) : World :=
  { w with creds := if os = .linux then elevateOnDrop w.creds else w.creds }

theorem dropScope_eq (os : HostOs) (w : World) : w.dropScope os =
    { w.deferred.runOrder.foldl (World.runAction os) (w.elevated os) with deferred := w.deferred.removeAll } := by
  unfold World.dropScope World.elevated
  cases os <;> rfl

theorem dropScope_calls (os : HostOs) (w : World) : (w.dropScope os).calls = w.calls := by
  have hfold : ∀ (actions : List Action) (w : World), (actions.foldl (World.runAction os) w).calls = w.calls := by
    intro actions
    induction actions with
    | nil => exact fun _ => rfl
    | cons a actions ih => exact fun w => ih (w.runAction os a)
  rw [dropScope_eq]
  exact hfold _ _

section

variable {m : Nat} {F : AppError → World → Prop} (hF : ∀ e w, Sound setup env w → (∀ c ∈ w.calls, rank c < m) → F e w)

include hF

/-- The operator `?` on a call that either succeeds or fails. -/
theorem hoare_orFail {P Q : World → Prop} {p : Supervise.Proc Bool}
    (h : p.Hoare (impl setup env) P (fun ok w => (Sound setup env w ∧ ∀ c ∈ w.calls, rank c < m) ∧ (ok = true → Q w)) F) :
    (p >>= Supervise.orFail).Hoare (impl setup env) P (fun _ => Q) F := by
  refine h.bind fun ok => ?_
  cases ok with
  | true => exact Prog.Hoare.pure fun w hw => hw.2 rfl
  | false => exact Prog.Hoare.fail fun w hw => hF _ w hw.1.1 hw.1.2

theorem hoare_checked {n : Nat} (hm : n ≤ m) {P : World → Prop} {p : Supervise.Proc Bool}
    (h : p.Hoare (impl setup env) P (fun _ => At setup env n) F) :
    (p >>= Supervise.orFail).Hoare (impl setup env) P (fun _ => At setup env n) F := by
  refine hoare_orFail hF (h.conseq (fun _ hw => hw) (fun _ w hw => ?_) fun _ _ hw => hw)
  exact ⟨⟨hw.sound, fun c hc => lt_of_lt_of_le (hw.before c hc) hm⟩, fun _ => hw⟩

/-- A stage that the ledger depends on. -/
theorem hoare_attempt {what : Supervise.Stage} (hrank : 0 < rank (.stage what)) (hm : rank (.stage what) < m) :
    (Supervise.attempt what).Hoare (impl setup env) (At setup env (rank (.stage what)))
      (fun _ => At setup env (rank (.stage what) + 1)) F := by
  refine hoare_orFail hF (Prog.Hoare.perform fun w hw => ⟨⟨hw.sound_impl hrank (by simp), fun c hc => ?_⟩, fun hok => ?_⟩)
  · exact lt_of_lt_of_le (hw.before_impl (by simp) c hc) hm
  · refine hw.next hrank (by simp) (by simp) fun hwhat => ?_
    cases hwhat
    simp only [impl, step] at hok
    split at hok
    · next hanswer => exact hanswer
    · cases hok

omit hF in
/-- A call that the ledger depends on. -/
theorem hoare_sys {c : Supervise.Call} (hrank : 0 < rank c) (hfork : c ≠ .fork) (hwait : c ≠ .waitpid)
    (htry : c ≠ .stage .netHelperTryWait) :
    (Supervise.sys c).Hoare (impl setup env) (At setup env (rank c)) (fun _ => At setup env (rank c + 1)) F :=
  Prog.Hoare.perform fun _ hw => hw.next hrank hfork hwait fun hc => absurd hc htry

variable {n : Nat} (hn : n = 1 ∨ 5 < n)

omit hF in
include hn in
/-- A call that the ledger does not depend on. -/
theorem hoare_sys_other {c : Supervise.Call} (hrank : rank c = 0) (hdrop : c ≠ .dropDeferred) :
    (Supervise.sys c).Hoare (impl setup env) (At setup env n) (fun _ => At setup env n) F :=
  Prog.Hoare.perform fun _ hw => hw.other hrank hdrop hn

include hn in
/-- A checked call that the ledger does not depend on. -/
theorem hoare_attempt_other (hm : n ≤ m) {what : Supervise.Stage} (hrank : rank (.stage what) = 0) :
    (Supervise.attempt what).Hoare (impl setup env) (At setup env n) (fun _ => At setup env n) F :=
  hoare_checked hF hm (Prog.Hoare.perform fun _ hw => hw.other hrank (by simp) hn)

end

/-- The steps up to the fork. -/
theorem hoare_beforeFork {F : AppError → World → Prop}
    (hF : ∀ e w, Sound setup env w → (∀ c ∈ w.calls, rank c < 5) → F e w) :
    Supervise.beforeFork.Hoare (impl setup env) (At setup env 1) (fun _ => At setup env 5) F := by
  have hother : ∀ {what}, rank (.stage what) = 0 →
      (Supervise.attempt what).Hoare (impl setup env) (At setup env 1) (fun _ => At setup env 1) F :=
    fun hrank => hoare_attempt_other hF (.inl rfl) (by decide) hrank
  unfold Supervise.beforeFork
  refine (hother rfl).bind fun _ => (hother rfl).bind fun _ => (hother rfl).bind fun _ => (hother rfl).bind fun _ =>
    (hother rfl).bind fun _ => (hoare_sys_other (.inl rfl) rfl (by simp)).bind fun canDetach => ?_
  refine (hoare_attempt hF (show 0 < rank (.stage .startNetHelper) by decide) (by decide)).bind fun _ => ?_
  refine (hoare_attempt hF (show 0 < rank (.stage .waitForFile) by decide) (by decide)).bind fun _ => ?_
  refine (hoare_attempt hF (show 0 < rank (.stage .netHelperTryWait) by decide) (by decide)).bind fun _ => ?_
  refine (hoare_attempt hF (show 0 < rank (.stage .prepareKeyFileForVm) by decide) (by decide)).bind fun _ => ?_
  exact Prog.Hoare.pure fun _ hw => hw

section

variable {F : AppError → World → Prop} (hF : ∀ e w, Sound setup env w → (∀ c ∈ w.calls, rank c < 14) → F e w)

include hF

omit hF in
theorem hoare_promptLoop (callbacks : Nat) :
    (Supervise.promptLoop callbacks).Hoare (impl setup env) (At setup env 10) (fun _ => At setup env 10) F := by
  induction callbacks with
  | zero => exact Prog.Hoare.pure fun _ hw => hw
  | succ callbacks ih =>
    have hrecv : (Supervise.sys .recvPrompt).Hoare (impl setup env) (At setup env 10) (fun _ => At setup env 10) F :=
      hoare_sys_other (.inr (by decide)) rfl (by simp)
    exact hrecv.bind fun _ => hrecv.bind fun _ => ih

/-- The steps from the fork to the report of the guest. -/
theorem hoare_awaitNfsServer (callbacks : Nat) :
    (Supervise.awaitNfsServer callbacks).Hoare (impl setup env) (At setup env 6) (fun _ => At setup env 11) F := by
  have hother : ∀ {n what}, 5 < n → n ≤ 14 → rank (.stage what) = 0 →
      (Supervise.attempt what).Hoare (impl setup env) (At setup env n) (fun _ => At setup env n) F :=
    fun hn hm hrank => hoare_attempt_other hF (.inr hn) hm hrank
  unfold Supervise.awaitNfsServer
  refine (hoare_checked hF (by decide) (hoare_sys_other (c := .startSignalPublisher) (.inr (by decide)) rfl (by simp))).bind fun _ => ?_
  refine (hother (by decide) (by decide) rfl).bind fun _ => ?_
  refine (hoare_attempt hF (show 0 < rank (.stage .registerVmRecord) by decide) (by decide)).bind fun _ => ?_
  refine (hother (by decide) (by decide) rfl).bind fun _ => (hother (by decide) (by decide) rfl).bind fun _ => ?_
  refine (hoare_attempt hF (show 0 < rank (.stage .setupRpcbindServices) by decide) (by decide)).bind fun _ => ?_
  refine (hoare_sys (c := .subscribe .stdinForwarder) (by decide) (by simp) (by simp) (by simp)).bind fun id => ?_
  refine (hoare_checked hF (by simp [rank])
    (hoare_sys (c := .stdinForwarderNew id) (Nat.succ_pos _) (by simp) (by simp) (by simp))).bind fun _ => ?_
  refine (hoare_promptLoop callbacks).bind fun _ => ?_
  refine (hoare_sys (c := .waitForNfsServer) (by decide) (by simp) (by simp) (by simp)).bind fun status => ?_
  exact Prog.Hoare.pure fun _ hw => hw

theorem hoare_detachOrJoin (canDetach : Bool) :
    (Supervise.detachOrJoin canDetach).Hoare (impl setup env) (At setup env 12) (fun _ => At setup env 12) F := by
  have hcheck : ∀ {line}, (Supervise.sys (.writeToPipe .runMountChild line) >>= Supervise.orFail).Hoare (impl setup env)
      (At setup env 12) (fun _ => At setup env 12) F :=
    hoare_checked hF (by decide) (hoare_sys_other (.inr (by decide)) rfl (by simp))
  unfold Supervise.detachOrJoin
  split
  · refine hcheck.bind fun _ => (hoare_sys_other (.inr (by decide)) rfl (by simp)).bind fun _ => ?_
    exact hoare_attempt_other hF (.inr (by decide)) (by decide) rfl
  · exact hcheck

/-- The steps while the share is mounted. -/
theorem hoare_mountSession (canDetach : Bool) :
    (Supervise.mountSession canDetach).Hoare (impl setup env) (At setup env 11) (fun _ => At setup env 13) F := by
  unfold Supervise.mountSession
  refine (hoare_sys (c := .mountShare) (by decide) (by simp) (by simp) (by simp)).bind fun mounted => ?_
  refine (hoare_attempt_other hF (.inr (by decide)) (by decide) rfl).bind fun _ => (hoare_detachOrJoin hF canDetach).bind fun _ => ?_
  have hquit : (Supervise.attempt .sendQuitCmd).Hoare (impl setup env) (At setup env 13) (fun _ => At setup env 13) F :=
    hoare_attempt_other hF (.inr (by decide)) (by decide) rfl
  cases mounted with
  | true => exact (hoare_sys (c := .waitForUnmount) (by decide) (by simp) (by simp) (by simp)).bind fun _ => hquit
  | false => exact hquit.conseq (fun _ hw => At.mono hw (by decide) (by decide)) (fun _ _ hw => hw) fun _ _ hw => hw

end

/-- The end of the VM. -/
theorem hoare_waitForVm (nfsStatus : NfsStatus) :
    (Supervise.waitForVm nfsStatus).Hoare (impl setup env) (At setup env 13) (fun _ => Sound setup env) (fun _ => Sound setup env) := by
  refine Prog.Hoare.bind (M := fun _ => Sound setup env) (Prog.Hoare.perform fun w hw => ?_) fun answer => ?_
  · exact At.sound_impl (c := .waitpid) hw (by decide) (by simp)
  · generalize waitForVmStatus answer >>= Supervise.checkStatus nfsStatus = result
    cases result with
    | ok _ => exact Prog.Hoare.pure fun _ hw => hw
    | error _ => exact Prog.Hoare.fail fun _ hw => hw

/-- The supervising process, whatever the guest reports. -/
theorem hoare_supervise (callbacks : Nat) (canDetach : Bool) :
    (Supervise.supervise callbacks canDetach).Hoare (impl setup env) (At setup env 6) (fun _ => Sound setup env)
      (fun _ => Sound setup env) := by
  have hF : ∀ (_ : AppError) w, Sound setup env w → (∀ c ∈ w.calls, rank c < 14) → Sound setup env w := fun _ _ h _ => h
  unfold Supervise.supervise
  refine (hoare_awaitNfsServer hF callbacks).bind fun report => ?_
  obtain ⟨id, nfsStatus⟩ := report
  cases nfsStatus with
  | ready state =>
    refine Prog.Hoare.bind (M := fun _ => At setup env 13) ?_ fun _ => hoare_waitForVm _
    refine (hoare_sys_other (.inr (by decide)) rfl (by simp)).bind fun _ => ?_
    refine (hoare_sys_other (.inr (by decide)) rfl (by simp)).bind fun signals => ?_
    refine (hoare_checked hF (by decide) (hoare_sys_other (c := .eventSessionNew signals) (.inr (by decide)) rfl (by simp))).bind fun _ => ?_
    refine (hoare_mountSession hF canDetach).ensuring (fun _ => hoare_sys_other (.inr (by decide)) rfl (by simp)) fun _ => ?_
    exact Prog.Hoare.perform fun w hw => hw.sound_impl rfl (by simp)
  | failed code =>
    refine Prog.Hoare.bind (M := fun _ => At setup env 13) ?_ fun _ => hoare_waitForVm _
    have hjoin : (Supervise.sys (.writeToPipe .runMountChild "join") >>= Supervise.orFail).Hoare (impl setup env) (At setup env 11)
        (fun _ => At setup env 11) (fun _ => Sound setup env) :=
      hoare_checked hF (by decide) (hoare_sys_other (.inr (by decide)) rfl (by simp))
    refine (hoare_attempt_other hF (.inr (by decide)) (by decide) rfl).bind fun _ => ?_
    exact hjoin.conseq (fun _ hw => hw) (fun _ _ hw => At.mono hw (by decide) (by decide)) fun _ _ hw => hw

/-- After a fork that does not make this process the VM. -/
def AfterFork (setup : Setup) (env : Env) : Supervise.Forked → World → Prop
  | .failed => Sound setup env
  | .vm => fun _ => False
  | .parent => At setup env 6

theorem hoare_fork (hfork : env.answers .fork ≠ .vm) : (Supervise.sys .fork).Hoare (impl setup env) (At setup env 5)
    (AfterFork setup env) (fun (_ : AppError) => Sound setup env) := by
  refine Prog.Hoare.perform fun w hw => ?_
  simp only [impl, step]
  cases hanswer : env.answers .fork with
  | failed =>
    refine hw.sound.record_self (fun r => ?_) (by simp)
    cases r <;> simp [Unregistered, Lost, StaysMounted]
  | vm => exact hfork hanswer
  | parent =>
    refine ⟨hw.sound.fork (hw.fresh le_rfl) (hw.fresh (by decide)) (hw.vsock (.inr rfl)), fun c hc => ?_, by simp, by simp, fun _ => ?_⟩
    · rcases List.mem_append.1 hc with hc | hc
      · exact Nat.lt_succ_of_lt (hw.before c hc)
      · rw [List.mem_singleton.1 hc]
        decide
    · simp [World.acquire]

/-- The process after the end of the scope. -/
def Ended (setup : Setup) (env : Env) (w : World) : Prop :=
  ∃ w₀, Sound setup env w₀ ∧ w = (w₀.dropScope setup.os).record .dropDeferred

theorem hoare_runMountChild (hfork : env.answers .fork ≠ .vm) (callbacks : Nat) :
    (Supervise.runMountChild callbacks).Hoare (impl setup env) (At setup env 1) (fun _ => Ended setup env)
      (fun _ => Ended setup env) := by
  have hF : ∀ (_ : AppError) w, Sound setup env w → (∀ c ∈ w.calls, rank c < 5) → Sound setup env w := fun _ _ h _ => h
  have hdrop : ∀ F : AppError → World → Prop,
      (Supervise.sys .dropDeferred).Hoare (impl setup env) (Sound setup env) (fun _ => Ended setup env) F :=
    fun F => Prog.Hoare.perform fun w hw => ⟨w, hw, rfl⟩
  refine Prog.Hoare.ensuring (M := fun _ => Sound setup env) (N := fun _ => Sound setup env) ?_ (fun _ => hdrop _) fun _ => hdrop _
  refine (hoare_beforeFork hF).bind fun canDetach => (hoare_fork hfork).bind fun forked => ?_
  cases forked with
  | failed => exact Prog.Hoare.fail fun _ hw => hw
  | vm => exact Prog.Hoare.of_false
  | parent => exact hoare_supervise callbacks canDetach

/-- A process that has done nothing yet. -/
theorem at_start : At setup env 1 { creds := setup.creds } := by
  refine ⟨⟨⟨?_, List.nodup_nil, ?_, ?_, ⟨[], List.nodup_nil, ?_, rfl⟩, ?_⟩, ?_, fun _ => ⟨rfl, id⟩, fun r => ?_, ?_⟩,
    ?_, fun _ => rfl, by simp, by simp⟩
  · exact fun _ _ hmem => absurd hmem List.not_mem_nil
  · exact fun _ _ _ hid => by cases hid
  · exact fun _ _ hid => by cases hid
  · simp
  · simp
  · simp
  · cases r <;> simp [World.Owed, Unregistered, Lost, StaysMounted]
  · simp
  · simp

theorem ended_finish (hfork : env.answers .fork ≠ .vm) (callbacks : Nat) : Ended setup env (finish setup env callbacks) := by
  have hend := hoare_runMountChild hfork callbacks { creds := setup.creds } at_start
  unfold finish
  generalize (Supervise.runMountChild callbacks).exec (impl setup env) { creds := setup.creds } = result at hend ⊢
  obtain ⟨_ | _, w⟩ := result
  · exact hend
  · exact hend

/-- What the end of the scope adds to the clean-ups. -/
theorem cleanups_dropScope (os : HostOs) (w : World) :
    (w.dropScope os).cleanups = w.cleanups ++ w.deferred.runOrder.map fun a => (a, (w.elevated os).creds) := by
  have hfold : ∀ (actions : List Action) (w : World),
      (actions.foldl (World.runAction os) w).cleanups = w.cleanups ++ actions.map fun a => (a, w.creds) := by
    intro actions
    induction actions with
    | nil => exact fun w => (List.append_nil _).symm
    | cons a actions ih =>
      intro w
      rw [List.foldl_cons, ih, List.map_cons, ← List.singleton_append, ← List.append_assoc]
      rfl
  rw [dropScope_eq]
  exact hfold _ _

/-- On Linux, in a mount that root has started, every clean-up that needs root is run as root, however the mount ends and
whatever it has dropped by then; and beside the guards of other threads the process is the same root in the clean-up, as long as
these do not overlap with each other or with the changes of the main thread. -/
theorem cleanups_finish_root (hos : setup.os = .linux) (hcreds : setup.creds.Recoverable) (hfork : env.answers .fork ≠ .vm)
    (callbacks : Nat) {a : Action} {c : Creds} (h : (a, c) ∈ (finish setup env callbacks).cleanups) (ha : needsRoot a = true) :
    c = ⟨.all 0, .all 0⟩ ∧ ∀ {T : Type} [DecidableEq T] (uid gid : Nat) (s : GuardSys T), uid ≠ 0 →
      Reach (GuardSys.step uid gid) GuardSys.Alone GuardSys.init s → s.main = .cleanup → s.creds = c := by
  have hroot : c = ⟨.all 0, .all 0⟩ := by
    obtain ⟨w₀, hw₀, hfinish⟩ := ended_finish hfork callbacks
    rw [hfinish] at h
    change (a, c) ∈ (w₀.dropScope setup.os).cleanups at h
    rw [cleanups_dropScope] at h
    rcases List.mem_append.1 h with h | h
    · rw [hw₀.tidy.ran _ h] at ha
      cases ha
    · obtain ⟨a', -, heq⟩ := List.mem_map.1 h
      cases heq
      obtain ⟨hsame, hrights⟩ := hw₀.rights hos
      rw [World.elevated, hos, if_pos rfl, elevateOnDrop, if_pos (hsame.trans hcreds.1), elevated_of_recoverable (hrights hcreds)]
  exact ⟨hroot, fun uid gid s hu hs hmain => ((GuardSys.aloneInv_of_reach hu hs).creds_cleanup hmain).trans hroot.symm⟩

/-- The network helper of a mount that goes well is terminated by root, although the privileges have been dropped by then, and
although `send_quit_cmd` has had a guard. -/
theorem cleanups_finish_root_smooth : ∃ (c : Creds) (s : GuardSys Bool), (.terminateNetHelper, c) ∈ (finish
    { os := .linux, privilege := ⟨501, 20, some 501, some 20⟩, creds := ⟨.all 0, .all 0⟩ }
    { answers := Supervise.smooth (.exited 0 (Nat.succ_pos 255)) } 0).cleanups ∧ c = ⟨.all 0, .all 0⟩ ∧
      Reach (GuardSys.step 501 20) GuardSys.Alone GuardSys.init s ∧ s.main = .cleanup ∧ s.creds = c := by
  have hmem : (.terminateNetHelper, ⟨.all 0, .all 0⟩) ∈ (finish
      { os := .linux, privilege := ⟨501, 20, some 501, some 20⟩, creds := ⟨.all 0, .all 0⟩ }
      { answers := Supervise.smooth (.exited 0 (Nat.succ_pos 255)) } 0).cleanups := by decide
  obtain ⟨hroot, hguards⟩ := cleanups_finish_root rfl ⟨rfl, rfl, rfl, rfl⟩ (by decide) 0 hmem rfl
  obtain ⟨s, hs, hmain⟩ := Transition.exists_reach (GuardSys.step 501 20) GuardSys.Alone
    (fun s : GuardSys Bool => s.main = .cleanup) GuardSys.init
    ([.main, .main] ++ List.replicate 6 (.thread true) ++ [.main, .main]) (by decide)
  exact ⟨_, s, hmem, hroot, hs, hmain, hguards 501 20 s (by decide) hs hmain⟩

/-! ## The VM process -/

/-- Nothing is left to run, and nothing has been run. -/
def Idle (w : World) : Prop := w.deferred.actions = [] ∧ w.cleanups = []

theorem hoare_startVm : Supervise.startVm.Hoare (impl setup env) Idle (fun _ => Idle) (fun _ => Idle) := by
  have hstage : ∀ what, what = .setupVm ∨ what = .startVmproxy →
      (Supervise.attempt what).Hoare (impl setup env) Idle (fun _ => Idle) (fun _ => Idle) := by
    intro what hwhat
    refine Prog.Hoare.bind (M := fun _ => Idle) (Prog.Hoare.perform fun w hw => ?_) fun ok => ?_
    · rcases hwhat with rfl | rfl <;> exact hw
    · cases ok with
      | true => exact Prog.Hoare.pure fun _ hw => hw
      | false => exact Prog.Hoare.fail fun _ hw => hw
  exact (hstage _ (.inl rfl)).bind fun _ => hstage _ (.inr rfl)

/-- The VM process runs no clean-up: the actions that it has inherited are for the process that supervises it. -/
theorem cleanups_finish_vm (hfork : env.answers .fork = .vm) (callbacks : Nat) (h : .fork ∈ (finish setup env callbacks).calls) :
    (finish setup env callbacks).cleanups = [] := by
  have hdrop : ∀ F : AppError → World → Prop, (Supervise.sys .dropDeferred).Hoare (impl setup env)
      (fun w => Idle w ∨ .fork ∉ w.calls) (fun _ w => .fork ∈ w.calls → w.cleanups = []) F := by
    refine fun F => Prog.Hoare.perform fun w hw hforked => ?_
    change .fork ∈ (w.dropScope setup.os).calls ++ [.dropDeferred] at hforked
    change (w.dropScope setup.os).cleanups = []
    rw [dropScope_calls] at hforked
    obtain ⟨hactions, hcleanups⟩ := hw.resolve_right (not_not.2 (by simpa using hforked))
    rw [cleanups_dropScope, hcleanups, Deferred.runOrder, hactions]
    rfl
  have hend : (Supervise.runMountChild callbacks).Hoare (impl setup env) (At setup env 1)
      (fun _ w => .fork ∈ w.calls → w.cleanups = []) (fun _ w => .fork ∈ w.calls → w.cleanups = []) := by
    refine Prog.Hoare.ensuring (M := fun _ w => Idle w ∨ .fork ∉ w.calls) (N := fun _ w => Idle w ∨ .fork ∉ w.calls) ?_
      (fun _ => hdrop _) fun _ => hdrop _
    refine (hoare_beforeFork fun _ w _ hbefore => .inr fun hmem => absurd (hbefore _ hmem) (by decide)).bind fun canDetach => ?_
    refine Prog.Hoare.bind (M := fun forked w => forked = .vm ∧ Idle w) (Prog.Hoare.perform fun w hw => ?_) fun forked => ?_
    · simp only [impl, step, hfork]
      exact ⟨trivial, rfl, hw.quiet le_rfl⟩
    · cases forked with
      | vm => exact hoare_startVm.conseq (fun _ hw => hw.2) (fun _ _ hw => .inl hw) fun _ _ hw => .inl hw
      | failed | parent => exact fun _ hw => by cases hw.1
  have hfinish := hend _ at_start
  unfold finish at h ⊢
  generalize (Supervise.runMountChild callbacks).exec (impl setup env) { creds := setup.creds } = result at hfinish h ⊢
  obtain ⟨_ | _, w⟩ := result
  · exact hfinish h
  · exact hfinish h

/-- A VM that cannot be set up. -/
theorem cleanups_finish_vm_setup : (finish
    { os := .linux, privilege := ⟨501, 20, some 501, some 20⟩, creds := ⟨.all 0, .all 0⟩ }
    { answers := vmSide .setupVm } 0).cleanups = [] :=
  cleanups_finish_vm rfl 0 (by decide)

end Session

end Anylinuxfs
