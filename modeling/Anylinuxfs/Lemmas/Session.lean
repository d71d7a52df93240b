import Anylinuxfs.Session
import Mathlib.Data.Fintype.Card
import Mathlib.Data.Fintype.EquivFin
import Mathlib.Data.Finset.Card

/-!
# The ledger of a mount

What the supervising process holds and what its pending actions will give back, under the operations on `World`: the identifiers
that it keeps find the actions that they were returned for, so an action that is removed or called early is the one it is said
to be. `Owed` is what would be left behind if the pending actions were run now.
-/

namespace Anylinuxfs

open Interact (Prog)
open Posix (Creds)

namespace Session

/-- The kinds of actions. -/
def actionKinds : List Action :=
  [.vfkitSockCleanup, .terminateNetHelper, .vsockCleanup, .removeKeyFile, .waitForVmStatus, .removeApiSocket, .restoreServices,
    .receiveReport, .stopStdinForwarder, .sendQuitCmd, .removeMountPoint]

theorem mem_actionKinds (a : Action) : a ∈ actionKinds := by
  cases a <;> decide

/-! ## The identifiers -/

/-- The action is in the stack. -/
def World.Pending (w : World) (a : Action) : Prop := ∃ id, (id, a) ∈ w.deferred.actions

/-- The identifiers are those of the last actions of their kinds, no action is in the stack twice, and the counter has not come
around; an action that needs root has not been run yet. -/
structure World.Tidy (w : World) : Prop where
  entry : ∀ id a, (id, a) ∈ w.deferred.actions → w.ids a = some id
  distinct : w.deferred.actions.Nodup
  inj : ∀ a b id, w.ids a = some id → w.ids b = some id → a = b
  below : ∀ a id, w.ids a = some id → id.toNat < w.deferred.lastId.toNat
  count : ∃ used : List Action, used.Nodup ∧ (∀ a, (w.ids a).isSome ↔ a ∈ used) ∧ w.deferred.lastId.toNat = used.length
  ran : ∀ e ∈ w.cleanups, needsRoot e.1 = false

/-- There are few actions, so the counter does not come around. -/
theorem length_le_of_nodup {used : List Action} (h : used.Nodup) : used.length ≤ 11 :=
  (List.subperm_of_subset h fun a _ => mem_actionKinds a).length_le

/-- The stack without the actions of a kind. -/
def World.without (w : World) (a : Action) : World :=
  { w with deferred := { w.deferred with actions := w.deferred.actions.filter (fun e => e.2 ≠ a) } }

namespace World

variable {w : World} {a b : Action} {r : Resource}

@[simp] theorem held_add : (w.add a).held = w.held := rfl

theorem pending_acquire : (w.acquire r).Pending a ↔ w.Pending a := Iff.rfl

theorem pending_lose : (w.lose r).Pending a ↔ w.Pending a := Iff.rfl

theorem pending_add : (w.add a).Pending b ↔ w.Pending b ∨ b = a := by
  simp [Pending, add, Deferred.add, exists_or]

theorem pending_without : (w.without a).Pending b ↔ w.Pending b ∧ b ≠ a := by
  simp [Pending, without]

/-- Neither what is held matters, nor who the process acts as. -/
theorem Tidy.congr {w' : World} (h : w.Tidy) (hdeferred : w'.deferred = w.deferred) (hids : w'.ids = w.ids)
    (hcleanups : w'.cleanups = w.cleanups) : w'.Tidy where
  entry := by rw [hdeferred, hids]; exact h.entry
  distinct := by rw [hdeferred]; exact h.distinct
  inj := by rw [hids]; exact h.inj
  below := by rw [hdeferred, hids]; exact h.below
  count := by rw [hdeferred, hids]; exact h.count
  ran := by rw [hcleanups]; exact h.ran

/-- An action of a new kind gets an identifier of its own. -/
theorem Tidy.add (h : w.Tidy) (ha : w.ids a = none) : (w.add a).Tidy := by
  obtain ⟨used, hnodup, hused, hcount⟩ := h.count
  have hsmall : w.deferred.lastId.toNat ≤ 11 := hcount ▸ length_le_of_nodup hnodup
  have hnext : (w.deferred.lastId + 1).toNat = w.deferred.lastId.toNat + 1 := by
    have hlt : w.deferred.lastId.toNat + (1 : UInt64).toNat < 2 ^ 64 := by
      change _ + 1 < _
      omega
    rw [UInt64.toNat_add, Nat.mod_eq_of_lt hlt]
    rfl
  have hself : (w.add a).ids a = some w.deferred.lastId := Function.update_self a _ w.ids
  have hother : ∀ b, b ≠ a → (w.add a).ids b = w.ids b := fun b hb => Function.update_of_ne hb _ w.ids
  have hfresh : ∀ b, w.ids b ≠ some w.deferred.lastId := fun b hb => lt_irrefl _ (h.below b _ hb)
  refine ⟨?_, ?_, ?_, ?_, ⟨a :: used, ?_, ?_, ?_⟩, h.ran⟩
  · intro id b hmem
    rcases List.mem_append.1 hmem with hmem | hmem
    · have hb := h.entry id b hmem
      rw [hother b (by rintro rfl; rw [ha] at hb; cases hb), hb]
    · cases List.mem_singleton.1 hmem
      exact hself
  · refine List.nodup_append.2 ⟨h.distinct, List.nodup_singleton _, ?_⟩
    rintro ⟨id, b⟩ hmem e he rfl
    cases List.mem_singleton.1 he
    exact hfresh _ (h.entry _ _ hmem)
  · intro b c id hb hc
    by_cases hba : b = a
    · subst hba
      by_contra hne
      rw [hself] at hb
      rw [hother c (Ne.symm hne), ← hb] at hc
      exact hfresh c hc
    · rw [hother b hba] at hb
      by_cases hca : c = a
      · subst hca
        rw [hself] at hc
        rw [← hc] at hb
        exact absurd hb (hfresh b)
      · rw [hother c hca] at hc
        exact h.inj b c id hb hc
  · intro b id hb
    change id.toNat < (w.deferred.lastId + 1).toNat
    rw [hnext]
    by_cases hba : b = a
    · rw [hba, hself] at hb
      rw [Option.some.inj hb]
      exact Nat.lt_succ_self _
    · rw [hother b hba] at hb
      exact Nat.lt_succ_of_lt (h.below b id hb)
  · refine List.nodup_cons.2 ⟨fun hmem => ?_, hnodup⟩
    have hsome := (hused a).2 hmem
    rw [ha] at hsome
    cases hsome
  · intro b
    by_cases hba : b = a
    · rw [hba, hself]
      simp
    · rw [hother b hba, hused]
      simp [hba]
  · change (w.deferred.lastId + 1).toNat = _
    rw [hnext, hcount, List.length_cons]

/-- In a list without duplicates, taking out the first entry of a key takes out all of them. -/
theorem eraseP_eq_filter {l : List (ActionId × Action)} {id : ActionId} (hl : ∀ e ∈ l, e.1 = id ↔ e.2 = a) (hnodup : l.Nodup) :
    l.eraseP (fun e => e.1 = id) = l.filter (fun e => e.2 ≠ a) := by
  induction l with
  | nil => rfl
  | cons e l ih =>
    obtain ⟨hnot, hnodup⟩ := List.nodup_cons.1 hnodup
    have htail : ∀ e ∈ l, e.1 = id ↔ e.2 = a := fun e he => hl e (List.mem_cons_of_mem _ he)
    by_cases hid : e.1 = id
    · have ha : e.2 = a := (hl e List.mem_cons_self).1 hid
      rw [List.eraseP_cons_of_pos (by simpa using hid), List.filter_cons_of_neg (by simpa using ha), eq_comm, List.filter_eq_self]
      intro e' he'
      refine decide_eq_true fun ha' => hnot ?_
      have heq : e = e' := Prod.ext (hid.trans ((htail e' he').2 ha').symm) (ha.trans ha'.symm)
      rw [heq]
      exact he'
    · have ha : e.2 ≠ a := fun ha => hid ((hl e List.mem_cons_self).2 ha)
      rw [List.eraseP_cons_of_neg (by simpa using hid), List.filter_cons_of_pos (by simpa using ha), ih htail hnodup]

/-- The identifier of an action takes exactly this action out of the stack. -/
theorem Tidy.popAction (h : w.Tidy) {id : ActionId} (ha : w.ids a = some id) :
    (w.Pending a → w.deferred.popAction id = some (a, (w.without a).deferred)) ∧
      (¬w.Pending a → w.deferred.popAction id = none) := by
  have hkey : ∀ e ∈ w.deferred.actions, e.1 = id ↔ e.2 = a := by
    intro e hmem
    have hb := h.entry e.1 e.2 hmem
    constructor
    · intro heq
      rw [heq] at hb
      exact h.inj e.2 a id hb ha
    · intro heq
      rw [heq] at hb
      exact Option.some.inj (hb.symm.trans ha)
  constructor
  · rintro ⟨id', hmem⟩
    obtain ⟨e, he⟩ : ∃ e, w.deferred.actions.find? (fun e => e.1 = id) = some e := by
      rw [← Option.isSome_iff_exists, List.find?_isSome]
      exact ⟨(id', a), hmem, decide_eq_true ((hkey _ hmem).2 rfl)⟩
    have hid : e.1 = id := by simpa using List.find?_some he
    rw [Deferred.popAction, he, eraseP_eq_filter hkey h.distinct, ← (hkey e (List.mem_of_find?_eq_some he)).1 hid]
    rfl
  · intro hnot
    have hfind : w.deferred.actions.find? (fun e => e.1 = id) = none := by
      rw [List.find?_eq_none]
      intro e he hid
      have ha := (hkey e he).1 (by simpa using hid)
      exact hnot ⟨e.1, ha ▸ he⟩
    rw [Deferred.popAction, hfind]

@[simp] theorem held_without : (w.without a).held = w.held := rfl

theorem Tidy.without (h : w.Tidy) (a : Action) : (w.without a).Tidy where
  entry id b hmem := h.entry id b (List.mem_of_mem_filter hmem)
  distinct := h.distinct.filter _
  inj := h.inj
  below := h.below
  count := h.count
  ran := h.ran

/-- Without an action of the kind, nothing is taken out. -/
theorem without_of_not_pending (ha : ¬w.Pending a) : w.without a = w := by
  have hfilter : w.deferred.actions.filter (fun e => e.2 ≠ a) = w.deferred.actions := by
    rw [List.filter_eq_self]
    intro e he
    exact decide_eq_true fun heq => ha ⟨e.1, heq ▸ he⟩
  rw [World.without, hfilter]

/-- `remove` takes exactly the action of this kind out. -/
theorem Tidy.remove (h : w.Tidy) (a : Action) : w.remove a = w.without a := by
  unfold World.remove
  cases ha : w.ids a with
  | none =>
    refine (without_of_not_pending ?_).symm
    rintro ⟨id, hmem⟩
    rw [h.entry id a hmem] at ha
    cases ha
  | some id =>
    by_cases hp : w.Pending a
    · simp only [Deferred.remove, (h.popAction ha).1 hp]
      rfl
    · simp only [Deferred.remove, (h.popAction ha).2 hp]
      exact (without_of_not_pending hp).symm

/-- `call_now` runs exactly the action of this kind, if it is in the stack. -/
theorem Tidy.callNow (h : w.Tidy) (os : HostOs) (a : Action) :
    (w.Pending a → w.callNow os a = (w.without a).runAction os a) ∧ (¬w.Pending a → w.callNow os a = w) := by
  unfold World.callNow
  cases ha : w.ids a with
  | none =>
    refine ⟨?_, fun _ => rfl⟩
    rintro ⟨id, hmem⟩
    rw [h.entry id a hmem] at ha
    cases ha
  | some id =>
    constructor
    · intro hp
      simp only [Deferred.callNow, (h.popAction ha).1 hp]
      rfl
    · intro hp
      simp only [Deferred.callNow, (h.popAction ha).2 hp]

/-! ## What would be left -/

/-- A pending action gives the resource back. -/
def Covered (w : World) (r : Resource) : Prop := ∃ a, frees a = some r ∧ w.Pending a

/-- The resource is held, and no pending action gives it back. -/
def Owed (w : World) (r : Resource) : Prop := r ∈ w.held ∧ ¬w.Covered r

variable {r' : Resource}

@[simp] theorem owed_acquire : (w.acquire r).Owed r' ↔ w.Owed r' ∨ (r' = r ∧ ¬w.Covered r) := by
  simp only [Owed, acquire, List.mem_cons, or_and_right]
  rw [or_comm]
  refine or_congr Iff.rfl (and_congr_right ?_)
  rintro rfl
  exact Iff.rfl

@[simp] theorem owed_lose : (w.lose r).Owed r' ↔ w.Owed r' ∧ r' ≠ r := by
  simp only [Owed, lose, List.mem_filter, decide_eq_true_eq]
  exact and_right_comm

theorem covered_add : (w.add a).Covered r ↔ w.Covered r ∨ frees a = some r := by
  simp only [Covered, pending_add, and_or_left, exists_or, exists_eq_right]

@[simp] theorem owed_add : (w.add a).Owed r ↔ w.Owed r ∧ frees a ≠ some r := by
  rw [Owed, Owed, covered_add, not_or, and_assoc]
  rfl

/-- Only one action gives a resource back. -/
theorem frees_inj (ha : frees a = some r) (hb : frees b = some r) : a = b := by
  cases a <;> cases b <;> cases ha <;> first | rfl | cases hb

theorem covered_without : (w.without a).Covered r ↔ w.Covered r ∧ frees a ≠ some r := by
  constructor
  · rintro ⟨b, hb, hp⟩
    obtain ⟨hp, hne⟩ := pending_without.1 hp
    exact ⟨⟨b, hb, hp⟩, fun ha => hne (frees_inj hb ha)⟩
  · rintro ⟨⟨b, hb, hp⟩, hne⟩
    exact ⟨b, hb, pending_without.2 ⟨hp, by rintro rfl; exact hne hb⟩⟩

/-- An action that is not run any more leaves behind what it was for. -/
theorem owed_without : (w.without a).Owed r ↔ w.Owed r ∨ (r ∈ w.held ∧ frees a = some r) := by
  rw [Owed, Owed, covered_without, not_and_or, not_not, and_or_left]
  rfl

/-- An action that needs no rights has its effect. -/
theorem effective_of_not_needsRoot (os : HostOs) (ha : needsRoot a = false) (w : World) : w.effective os a = true := by
  have hne : a ≠ .removeMountPoint := by rintro rfl; cases ha
  simp [effective, permitted, ha, hne]

/-- Calling an action early leaves nothing behind. -/
theorem Tidy.owed_callNow (h : w.Tidy) {os : HostOs} (ha : needsRoot a = false) :
    (w.callNow os a).Owed r ↔ w.Owed r := by
  by_cases hp : w.Pending a
  · rw [(h.callNow os a).1 hp]
    have hcovered : ((w.without a).runAction os a).Covered r ↔ w.Covered r ∧ frees a ≠ some r := covered_without
    rw [Owed, hcovered, runAction, if_pos (effective_of_not_needsRoot os ha _), List.mem_filter, decide_eq_true_eq, Owed]
    constructor
    · rintro ⟨⟨hr, hne⟩, hnot⟩
      exact ⟨hr, fun hc => hnot ⟨hc, hne⟩⟩
    · rintro ⟨hr, hnot⟩
      exact ⟨⟨hr, fun ha => hnot ⟨a, ha, hp⟩⟩, fun hc => hnot hc.1⟩
  · rw [(h.callNow os a).2 hp]

/-- What else an early call does to the process: nothing but for what the action is there for. -/
theorem Tidy.callNow_frame (h : w.Tidy) (os : HostOs) (ha : needsRoot a = false) :
    (w.callNow os a).Tidy ∧ (w.callNow os a).ids = w.ids ∧ (w.callNow os a).creds = w.creds ∧
      (w.callNow os a).calls = w.calls ∧ (∀ b ≠ a, (w.callNow os a).Pending b ↔ w.Pending b) ∧
      ∀ r, frees a ≠ some r → (r ∈ (w.callNow os a).held ↔ r ∈ w.held) := by
  by_cases hp : w.Pending a
  · rw [(h.callNow os a).1 hp]
    have htidy := h.without a
    refine ⟨⟨htidy.entry, htidy.distinct, htidy.inj, htidy.below, htidy.count, fun e he => ?_⟩, rfl, rfl, rfl,
      fun b hb => pending_without.trans (and_iff_left hb), fun r hr => ?_⟩
    · rcases List.mem_append.1 he with he | he
      · exact h.ran e he
      · rw [List.mem_singleton.1 he]
        exact ha
    · unfold runAction
      split
      · exact List.mem_filter.trans (and_iff_left (decide_eq_true hr))
      · exact Iff.rfl
  · rw [(h.callNow os a).2 hp]
    exact ⟨h, rfl, rfl, rfl, fun _ _ => Iff.rfl, fun _ _ => Iff.rfl⟩

end World

/-! ## The calls -/

variable {setup : Setup} {env : Env}

/-- `NfsShareSetup::mount` only acquires; it succeeds if the share gets mounted. -/
theorem mountShare_frame (customMountPoint : Bool) (env : ShareEnv) (w : World) :
    (Session.mountShare customMountPoint env w).1 = env.lands customMountPoint ∧
      ∃ more, (Session.mountShare customMountPoint env w).2 = { w with held := more ++ w.held } := by
  unfold Session.mountShare ShareEnv.lands
  cases customMountPoint <;> cases env.dirCreated <;> cases env.mounted <;> cases env.chowned <;>
    first
    | exact ⟨rfl, [], rfl⟩
    | exact ⟨rfl, [.mountPoint], rfl⟩
    | exact ⟨rfl, [.nfsMount], rfl⟩
    | exact ⟨rfl, [.nfsMount, .mountPoint], rfl⟩

/-- A call changes no record of the calls before it; only the one that mounts the share runs an action, and only the one that
waits for the VM and the end of the scope lose the VM. -/
theorem step_frame {w : World} (htidy : w.Tidy) {c : Supervise.Call} (hdrop : c ≠ .dropDeferred) :
    (step setup env w c).2.calls = w.calls ∧ (c ≠ .mountShare → (step setup env w c).2.cleanups = w.cleanups) ∧
      (c ≠ .waitpid → .vm ∈ w.held → .vm ∈ (step setup env w c).2.held) := by
  cases c with
  | stage what =>
    cases what with
    | startNetHelper =>
      simp only [step, startNetHelper]
      split <;> simp +contextual [World.acquire]
    | waitForFile =>
      simp only [step]
      split <;> simp +contextual [World.add]
    | netHelperTryWait =>
      simp only [step]
      split <;> simp +contextual [World.add, World.lose]
    | prepareKeyFileForVm =>
      simp only [step, prepareKeyFileForVm]
      split
      · split
        · simp
        · split <;> split <;> simp +contextual [World.add, World.acquire, World.lose]
      · simp
    | registerVmRecord =>
      simp only [step]
      split <;> simp +contextual [World.add, World.acquire]
    | setupRpcbindServices =>
      simp only [step, setupRpcbindServices]
      split
      · simp
      · split <;> simp +contextual [World.add, World.acquire]
    | sendQuitCmd =>
      simp only [step, htidy.remove]
      exact ⟨rfl, fun _ => rfl, fun _ hvm => hvm⟩
    | _ => exact ⟨rfl, fun _ => rfl, fun _ hvm => hvm⟩
  | fork =>
    simp only [step]
    split <;> simp +contextual [World.add, World.acquire]
  | subscribe holder => cases holder <;> exact ⟨rfl, fun _ => rfl, fun _ hvm => hvm⟩
  | stdinForwarderNew id =>
    simp only [step]
    split <;> simp +contextual [World.add, World.acquire]
  | waitForNfsServer =>
    simp only [step]
    split <;> simp +contextual [World.add]
  | mountShare =>
    obtain ⟨-, more, hw₁⟩ := mountShare_frame setup.customMountPoint env.share w
    have htidy₁ : ({ w with held := more ++ w.held } : World).Tidy := htidy.congr rfl rfl rfl
    obtain ⟨-, -, -, hcalls, -, hheld⟩ := htidy₁.callNow_frame (a := .stopStdinForwarder) setup.os rfl
    have hvm₂ := hheld .vm (by simp [frees])
    simp only [step, mountAndWait, hw₁]
    refine ⟨?_, fun hne => absurd rfl hne, fun _ hvm => ?_⟩
    · split
      · split <;> exact hcalls
      · exact hcalls
    · split
      · split <;> exact hvm₂.2 (List.mem_append_right _ hvm)
      · exact hvm₂.2 (List.mem_append_right _ hvm)
  | waitForUnmount =>
    simp only [step]
    split <;> simp +contextual [World.lose]
  | waitpid =>
    simp only [step, htidy.remove]
    split <;> exact ⟨rfl, fun _ => rfl, fun hne => absurd rfl hne⟩
  | dropDeferred => exact absurd rfl hdrop
  | _ => exact ⟨rfl, fun _ => rfl, fun _ hvm => hvm⟩

end Session

end Anylinuxfs
