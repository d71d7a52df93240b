import Anylinuxfs.Lemmas.RootfsLock

/-!
# The lock of the rootfs

Over any number of processes, every command and every interleaving. Nobody else holds the lock while a process writes the rootfs
or runs a VM on a writable one, if only the commands that take the lock exclusively for it do so (`rootfsExclusive_of_reach`);
`mount` and `list` do not (`rootfsExclusive_false`). The lock of a mount is held as long as its VM process exists, if nothing
goes wrong meanwhile (`lockedWhileAlive_of_reach`); a step that fails after the fork unlocks it while the VM runs on
(`lockedWhileAlive_false`).
-/

namespace Anylinuxfs

open Flock Transition

/-! ## Bodies -/

/-- The commands that start a VM with a writable root under the shared lock. -/
def Command.sharedWriter : Command → Bool
  | .mount c => c.rwRootfs
  | .list rwRootfs _ probe => rwRootfs && probe
  | _ => false

theorem along_vmImageInit_writer (init : InitCase) (rest : List Op)
    (h : Along writerCheck [outerGuard .shared] rest = true) :
    Along writerCheck [outerGuard .shared] (vmImageInit init ++ rest) = true := by
  cases init <;> exact h

theorem along_vmImageInit_lock (init : InitCase) (rest : List Op) (h : Along lockCheck [outerGuard .shared] rest = true) :
    Along lockCheck [outerGuard .shared] (vmImageInit init ++ rest) = true := by
  cases init <;> exact h

/-- Every other command writes the rootfs under an exclusive guard only. -/
theorem along_body_writer {cmd : Command} (h : cmd.sharedWriter = false) : Along writerCheck [] cmd.body = true := by
  cases cmd with
  | mount c =>
    refine along_runMountChild neutral_writerCheck c (fun _ => rfl) (along_vmImageInit_writer c.init) fun rest hq => ?_
    have hrw : c.rwRootfs = false := h
    simp [writerCheck, hrw, hq]
  | shell rwRootfs init forked =>
    cases init with
    | none => cases rwRootfs <;> cases forked <;> rfl
    | some init => cases rwRootfs <;> cases forked <;> cases init <;> rfl
  | list rwRootfs init probe =>
    cases probe with
    | false => cases init <;> rfl
    | true =>
      have hrw : rwRootfs = false := by simpa [Command.sharedWriter] using h
      subst hrw
      cases init <;> rfl
  | apk init change => cases change <;> cases init <;> rfl
  | init init => cases init <;> rfl
  | imageInstall init => cases init <;> rfl
  | imageUninstall => rfl

/-- A mount forks its VM under a guard and waits for it. -/
theorem along_runMountChild_lock (c : MountCase) : Along lockCheck [] (runMountChild c) = true :=
  along_runMountChild neutral_lockCheck c (fun _ => rfl) (along_vmImageInit_lock c.init) fun rest hq => by simp [lockCheck, hq]

namespace CommandSys

variable {P : Type} [DecidableEq P]

theorem holds_iff (s : CommandSys P) (p : P) (k : FlockKind) : s.locks.Holds p k ↔ (s.view p).held = some k := by
  rw [view, Table.heldBy_eq_some_iff]
  exact ⟨fun h => ⟨(), h⟩, fun h => h.elim fun _ hheld => hheld⟩

/-! ## Writers are alone -/

/-- No wait for a VM with a writable root fails while that VM process is there. -/
def KeepsWaiting (s : CommandSys P) (a : P × Act) : Prop :=
  a.2 = .step false → (s.proc a.1).code.head? = some .waitpid → (s.proc a.1).vm.phase.inVm = true →
    (s.proc a.1).vm.writable = false

instance (s : CommandSys P) (a : P × Act) : Decidable (s.KeepsWaiting a) := inferInstanceAs (Decidable (_ → _ → _ → _))

theorem writerInv_of_reach {cmd : P → Command} (hcmd : ∀ p, (cmd p).sharedWriter = false) {s : CommandSys P}
    (h : Reach step KeepsWaiting (init cmd) s) (p : P) : WriterInv (s.view p) := by
  refine view_invariant h p WriterInv ?_ fun s act v' hi hcond hs => hi.step hs fun hact => hcond hact
  rw [view_init]
  refine ⟨⟨.nil, fun hc => absurd rfl hc, fun hc => (nomatch hc), along_body_writer (hcmd p)⟩, ?_, ?_, ?_⟩
  · exact fun hc => (nomatch hc)
  · exact fun hc => (nomatch hc)
  · exact fun hc => hc.elim (nomatch ·) (nomatch ·)

/-- A process that writes the rootfs holds the lock exclusively. -/
theorem holds_of_writesRootfs {s : CommandSys P} {p : P} (hi : WriterInv (s.view p)) (hw : s.WritesRootfs p) :
    s.locks.Holds p .exclusive := by
  rw [holds_iff]
  rcases hw with ⟨hcall, hcode⟩ | ⟨hphase, hwritable⟩
  · -- a write in the body: it is not quiet, so no VM is around, and its guard is exclusive
    have hhead : ∃ op rest, (s.proc p).code = op :: rest ∧ op.quiet = false ∧ ∀ gs, writerCheck gs op rest = topExclusive gs := by
      cases hc : (s.proc p).code with
      | nil =>
        rw [hc] at hcode
        exact hcode.elim (nomatch ·) (nomatch ·)
      | cons op rest =>
        rw [hc, List.head?_cons, Option.some.injEq, Option.some.injEq] at hcode
        rcases hcode with rfl | rfl
        · exact ⟨_, rest, rfl, rfl, fun _ => rfl⟩
        · exact ⟨_, rest, rfl, rfl, fun _ => rfl⟩
    obtain ⟨op, rest, hc, hq, hcheck⟩ := hhead
    have hex := hi.body.passes hc
    rw [hcheck] at hex
    exact hi.truthful hex hcall (hi.calm hc hq).2
  · have hin : (s.view p).proc.vm.phase.inVm = true := by
      rw [view, hphase]
      rfl
    obtain ⟨hex, hcall, _⟩ := hi.waiting hin hwritable
    refine hi.truthful hex hcall ?_
    rw [view, hphase]
    rfl

/-- In every run of any number of processes, none of which starts a VM with a writable root under the shared lock, and in which
no wait for such a VM fails, nobody else holds the lock while a process writes the rootfs. -/
theorem rootfsExclusive_of_reach {cmd : P → Command} (hcmd : ∀ p, (cmd p).sharedWriter = false) {s : CommandSys P}
    (h : Reach step KeepsWaiting (init cmd) s) : s.RootfsExclusive := by
  intro p q hq hw k hk
  have hp := holds_of_writesRootfs (writerInv_of_reach hcmd h p) hw
  exact hq (s.locks.table.exclusive_alone hp hk rfl rfl).symm

instance (s : CommandSys P) (p : P) : Decidable (s.WritesRootfs p) := inferInstanceAs (Decidable ((_ ∧ _) ∨ _))

/-- A shell with `--rw-rootfs` runs its VM while a mount waits for the lock. -/
theorem rootfsExclusive_of_shell : ∃ s : CommandSys Bool, s.WritesRootfs false ∧ s.RootfsExclusive := by
  have hrun := exists_reach step KeepsWaiting (fun s => s.WritesRootfs false)
    (init fun p => if p then .list false .upToDate true else .shell true none true)
    (List.replicate 11 (false, .step true) ++ [(false, .vm .enter), (true, .step true), (true, .step true)]) (by decide)
  obtain ⟨s, hreach, hw⟩ := hrun
  exact ⟨s, hw, rootfsExclusive_of_reach (by decide) hreach⟩

/-- A mount with `--rw-rootfs` runs its VM under the shared lock, and a second process takes the lock too. -/
theorem rootfsExclusive_false :
    ¬∀ (cmd : Bool → Command) (s : CommandSys Bool), Reach step Any (init cmd) s → s.RootfsExclusive := by
  intro h
  have hrun := exists_reach step Any (fun s => s.WritesRootfs false ∧ s.locks.Holds true .shared)
    (init fun p => if p then .list false .upToDate true else
      .mount ⟨true, false, .upToDate, false, .unused, true, false, true⟩)
    (List.replicate 13 (false, .step true) ++ [(false, .vm .enter), (true, .step true), (true, .step true)]) (by decide)
  obtain ⟨s, hreach, hw, hheld⟩ := hrun
  exact h _ s hreach false true (by decide) hw .shared hheld

/-! ## The lock outlives the VM -/

/-- Nothing goes wrong with the lock in a step of the process: the revert of an upgrade inside the body finds no exclusive lock
of another process, an operation fails only when there is no VM process, and the VM process does not fail. -/
def LockKept (p : P) (s : CommandSys P) (a : P × Act) : Prop :=
  a.1 = p → match a.2 with
    | .step ok =>
      (s.locks.call p = some .revert → (s.proc p).code ≠ [] → ∀ e ∈ s.locks.table.entries, e.owner ≠ p → e.kind = .shared) ∧
        (ok = false → (s.proc p).code.head?.any Op.fallible = true → (s.proc p).vm.phase.alive = false)
    | .vm move => move ≠ .fail

theorem granted_of_shared {s : CommandSys P} {p : P} (h : ∀ e ∈ s.locks.table.entries, e.owner ≠ p → e.kind = .shared) :
    s.grants p .shared = true := by
  unfold grants LockSys.flockNb
  cases ht : s.locks.table.tryLock p () .shared with
  | some t => rfl
  | none =>
    obtain ⟨e, he, _, hne, hk⟩ := Table.tryLock_eq_none_iff.1 ht
    rw [h e he hne] at hk
    cases hk

theorem lockedInv_of_reach {cmd : P → Command} {p : P} {c : MountCase} (hcmd : cmd p = .mount c) {s : CommandSys P}
    (h : Reach step (LockKept p) (init cmd) s) : LockedInv (s.view p) := by
  refine view_invariant h p LockedInv ?_ fun s act v' hi hcond hs => ?_
  · rw [view_init, hcmd]
    refine ⟨⟨.nil, fun hc => absurd rfl hc, fun hc => (nomatch hc), along_runMountChild_lock c⟩, ?_, fun hc => (nomatch hc)⟩
    exact fun _ _ g rest hg => (nomatch hg)
  · refine hi.step hs ?_ ?_ ?_
    · rintro ok rfl hcall hcode
      exact granted_of_shared ((hcond rfl).1 hcall hcode)
    · rintro rfl ⟨op, rest, hcode, hop⟩
      refine (hcond rfl).2 rfl ?_
      have hcode' : (s.proc p).code = op :: rest := hcode
      rw [hcode']
      exact hop
    · rintro rfl
      exact hcond rfl rfl

/-- In every run in which nothing goes wrong with the lock of a mount, the lock is held as long as its VM process exists,
whatever the other processes do. -/
theorem lockedWhileAlive_of_reach {cmd : P → Command} {p : P} {c : MountCase} (hcmd : cmd p = .mount c) {s : CommandSys P}
    (h : Reach step (LockKept p) (init cmd) s) : s.LockedWhileAlive p := by
  intro halive
  have hi := lockedInv_of_reach hcmd h
  obtain ⟨_, hcall, hguards, hquiet⟩ := hi.alive halive
  obtain ⟨g, rest, hg⟩ := List.exists_cons_of_ne_nil hguards
  refine ⟨g.currentKind, (s.holds_iff p _).2 (hi.truthful ?_ hcall g rest hg)⟩
  intro hnil
  rw [hnil] at hquiet
  cases hquiet

instance (p : P) (s : CommandSys P) : ∀ a, Decidable (LockKept p s a)
  | (q, .step _) => inferInstanceAs (Decidable (q = p → _ ∧ _))
  | (q, .vm move) => inferInstanceAs (Decidable (q = p → move ≠ .fail))

/-- A mount whose VM runs. -/
def plainMount : MountCase := ⟨false, false, .upToDate, false, .unused, true, false, true⟩

/-- A mount that copies a new `vmproxy` first holds the shared lock while its VM runs. -/
theorem lockedWhileAlive_of_mount : ∃ s : CommandSys Bool, (s.proc false).vm.phase = .running ∧ ∃ k, s.locks.Holds false k := by
  obtain ⟨s, hreach, hphase⟩ := exists_reach step (LockKept false) (fun s => (s.proc false).vm.phase = .running)
    (init fun _ : Bool => .mount { plainMount with init := .alpineRewrite })
    (List.replicate 19 (false, .step true) ++ [(false, .vm .enter)]) (by decide)
  refine ⟨s, hphase, lockedWhileAlive_of_reach (by rfl) hreach ?_⟩
  rw [hphase]
  rfl

/-- A mount fails to start its signal publisher after the fork: the guard is dropped before the deferred wait, and the VM runs
without a lock. -/
theorem lockedWhileAlive_false :
    ¬∀ (c : MountCase) (s : CommandSys Bool), Reach step Any (init fun _ => .mount c) s → s.LockedWhileAlive false := by
  intro h
  obtain ⟨s, hreach, hphase, hs, he⟩ := exists_reach step Any (fun s => (s.proc false).vm.phase = .running ∧
      ¬s.locks.Holds false .shared ∧ ¬s.locks.Holds false .exclusive) (init fun _ : Bool => .mount plainMount)
    (List.replicate 15 (false, .step true) ++ [(false, .vm .enter), (false, .step false), (false, .step true)]) (by decide)
  obtain ⟨k, hk⟩ := h plainMount s hreach (by rw [hphase]; rfl)
  cases k with
  | shared => exact hs hk
  | exclusive => exact he hk

end CommandSys

end Anylinuxfs
