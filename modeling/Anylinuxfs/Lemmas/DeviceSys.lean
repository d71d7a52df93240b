import Anylinuxfs.Lemmas.ClaimDevices

/-!
# The locks behind the descriptors

`Process.Ok` is what holds of a process between two calls: the rest of its program keeps to the rules, its disks are backed,
and for every descriptor the lock is in the table. A step of one process leaves this true of every other: a new lock has a new
description, and only the locks of descriptions that nobody has open are released (`Ok.step`).
-/

namespace Anylinuxfs

open Interact (Prog)

namespace DeviceSys

variable {φ : Type} {node : Bytes → φ}

/-! ## Processes -/

/-- The lock of a descriptor. -/
def Fd.entry (fd : Fd φ) : Flock.Entry Desc φ := ⟨fd.desc, fd.file, fd.kind⟩

/-- What holds of a process between two calls, with the locks and the next number of the system. -/
structure Process.Ok (node : Bytes → φ) (locks : Flock.Table Desc φ) (next : Nat) (p : Process φ) : Prop where
  keeps : p.prog.wp (deviceRules node (p.command.AttachesRoot node)) Anyhow Anyhow p.files
  backed : p.files.Backed (p.command.AttachesRoot node)
  held : ∀ fd ∈ p.files.fds, fd.desc.inst = p.inst ∧ fd.desc.idx < next ∧ fd.entry ∈ locks

variable {locks locks' : Flock.Table Desc φ} {next next' : Nat} {p : Process φ}

/-- A process stays as it should while the locks of its descriptors stay. -/
theorem Process.Ok.mono (h : p.Ok node locks next) (hnext : next ≤ next')
    (hlocks : ∀ fd ∈ p.files.fds, fd.entry ∈ locks → fd.entry ∈ locks') : p.Ok node locks' next' := by
  refine ⟨h.keeps, h.backed, fun fd hfd => ?_⟩
  obtain ⟨hinst, hidx, hentry⟩ := h.held fd hfd
  exact ⟨hinst, Nat.lt_of_lt_of_le hidx hnext, hlocks fd hfd hentry⟩

/-- A process goes on with an answer; its descriptors must have their locks. -/
theorem Process.Ok.resume (h : p.Ok node locks next) {c : SysCall} {k : c.Answer → Host Unit} (hprog : p.prog = .call c k)
    (r : c.Answer)
    (hfds : ∀ fd ∈ (p.files.after node c r).fds, fd.desc.inst = p.inst ∧ fd.desc.idx < next' ∧ fd.entry ∈ locks') :
    (p.resume node c k r).Ok node locks' next' := by
  have hwp := h.keeps
  rw [hprog] at hwp
  exact ⟨hwp.2 r, h.backed.after hwp.1 r, hfds⟩

/-- No call but the opening of a file gives a process a new descriptor. -/
theorem fds_after_subset (files : Files φ) {c : SysCall} (hc : ∀ path kind, c ≠ .openLocked path kind) (r : c.Answer) :
    ∀ fd ∈ (files.after node c r).fds, fd ∈ files.fds := by
  intro fd hfd
  cases c with
  | openLocked path kind => exact absurd rfl (hc path kind)
  | close disk => exact (List.mem_filter.1 hfd).1
  | krunAddDisk path format readOnly => cases r <;> exact hfd
  | dropCtx => exact hfd
  | mountTable => exact hfd
  | «exists» path => exact hfd
  | isFile path => exact hfd
  | unmountFs path => exact hfd
  | blkidProbe path => exact hfd
  | blkidPartitions path => exact hfd
  | mediaWritable path => exact hfd
  | fork => exact hfd
  | stage what => exact hfd

/-- A process goes on with an answer that gives it no new descriptor. -/
theorem Process.Ok.resume_subset (h : p.Ok node locks next) {c : SysCall} {k : c.Answer → Host Unit}
    (hprog : p.prog = .call c k) {r : c.Answer} (hfds : ∀ fd ∈ (p.files.after node c r).fds, fd ∈ p.files.fds) :
    (p.resume node c k r).Ok node locks next :=
  h.resume hprog r fun fd hfd => h.held fd (hfds fd hfd)

/-! ## The system -/

/-- What holds of the system between two steps. -/
def Ok (node : Bytes → φ) (s : DeviceSys φ) : Prop := ∀ p ∈ s.procs, p.Ok node s.locks s.next

variable {s s' : DeviceSys φ}

/-- A process is replaced by one that is as it should be. -/
theorem Ok.setProc (h : Ok node s) {pid : Nat} (hp : p.Ok node s.locks s.next) : Ok node (s.setProc pid p) := by
  intro q hq
  rcases List.mem_or_eq_of_mem_set hq with hq | rfl
  · exact h q hq
  · exact hp

/-- The release of locks leaves those of open descriptions. -/
theorem Ok.release (h : Ok node s) : Ok node s.release := by
  intro q hq
  refine (h q hq).mono (Nat.le_refl _) fun fd hfd hentry => ?_
  exact Flock.Table.mem_retain.2 ⟨hentry, decide_eq_true ⟨q, hq, fd, hfd, rfl⟩⟩

/-- A process without files is as it should be if its program keeps to the rules. -/
theorem ok_fresh {prog : Host Unit} (inst : Nat) (command : Instance)
    (hprog : prog.wp (deviceRules node (command.AttachesRoot node)) Anyhow Anyhow {}) :
    ({ inst := inst, command := command, prog := prog } : Process φ).Ok node s.locks s.next :=
  ⟨hprog, Files.backed_of_unattached rfl, fun _ h => nomatch h⟩

variable [DecidableEq φ] {pid : Nat} {host : HostView}

/-- A granted lock has a description of its own, so it takes none from another process. -/
theorem Ok.granted (h : Ok node s) (hp : p ∈ s.procs) {path : Bytes} {kind : Flock.Kind}
    {k : Opened → Host Unit} (hprog : p.prog = .call (.openLocked path kind) k) {locks : Flock.Table Desc φ}
    (hlock : s.locks.tryLock ⟨p.inst, s.next⟩ (node path) kind = some locks) :
    Ok node { s.setProc pid (p.resume node (.openLocked path kind) k (.granted ⟨p.inst, s.next⟩)) with
      locks := locks, next := s.next + 1 } := by
  have hkeep : ∀ q ∈ s.procs, ∀ fd ∈ q.files.fds, fd.entry ∈ locks := by
    intro q hq fd hfd
    obtain ⟨-, hidx, hentry⟩ := (h q hq).held fd hfd
    refine (Flock.Table.mem_of_tryLock hlock).2 (Or.inr ⟨hentry, fun heq => ?_⟩)
    have hnext : fd.desc.idx = s.next := congrArg Desc.idx heq
    omega
  have hnew : (p.resume node (.openLocked path kind) k (.granted ⟨p.inst, s.next⟩)).Ok node locks (s.next + 1) := by
    refine (h p hp).resume hprog _ fun fd hfd => ?_
    rcases List.mem_cons.1 hfd with rfl | hfd
    · exact ⟨rfl, Nat.lt_succ_self _, (Flock.Table.mem_of_tryLock hlock).2 (Or.inl rfl)⟩
    · obtain ⟨hinst, hidx, -⟩ := (h p hp).held fd hfd
      exact ⟨hinst, Nat.lt_succ_of_lt hidx, hkeep p hp fd hfd⟩
  intro q hq
  rcases List.mem_or_eq_of_mem_set hq with hq | rfl
  · exact (h q hq).mono (Nat.le_succ _) fun fd hfd _ => hkeep q hq fd hfd
  · exact hnew

/-- A call of one process leaves the system as it should be. -/
theorem Ok.perform (h : Ok node s) (hp : p ∈ s.procs) {c : SysCall} {k : c.Answer → Host Unit}
    (hprog : p.prog = .call c k) : Ok node (s.perform node pid p host c k) := by
  have hother (hc : ∀ path kind, c ≠ .openLocked path kind) (r : c.Answer) : (p.resume node c k r).Ok node s.locks s.next :=
    (h p hp).resume_subset hprog (fds_after_subset _ hc r)
  cases c with
  | openLocked path kind =>
    have hsame {r : Opened} (hr : p.files.after node (.openLocked path kind) r = p.files) :
        (p.resume node (.openLocked path kind) k r).Ok node s.locks s.next :=
      (h p hp).resume_subset hprog (by rw [hr]; exact fun _ hfd => hfd)
    simp only [DeviceSys.perform]
    split
    · split
      · next locks hlock => exact h.granted hp hprog hlock
      · exact h.setProc (hsame rfl)
    · exact h.setProc (hsame rfl)
  | close disk => exact (h.setProc (hother (by nofun) ())).release
  | fork =>
    simp only [DeviceSys.perform]
    split
    · intro q hq
      rcases List.mem_append.1 hq with hq | hq
      · exact h.setProc (hother (by nofun) .parent) q hq
      · rw [List.mem_singleton.1 hq]
        exact hother (by nofun) .child
    · exact h.setProc (hother (by nofun) .failed)
  | krunAddDisk path format readOnly => exact h.setProc (hother (by nofun) _)
  | dropCtx => exact h.setProc (hother (by nofun) _)
  | mountTable => exact h.setProc (hother (by nofun) _)
  | «exists» path => exact h.setProc (hother (by nofun) _)
  | isFile path => exact h.setProc (hother (by nofun) _)
  | unmountFs path => exact h.setProc (hother (by nofun) _)
  | blkidProbe path => exact h.setProc (hother (by nofun) _)
  | blkidPartitions path => exact h.setProc (hother (by nofun) _)
  | mediaWritable path => exact h.setProc (hother (by nofun) _)
  | stage what => exact h.setProc (hother (by nofun) _)

/-- A step of the system leaves it as it should be. -/
theorem Ok.step (h : Ok node s) {a : Act} (hstep : s.step node a = some s') : Ok node s' := by
  cases a with
  | start instance_ =>
    cases hstep
    intro q hq
    rcases List.mem_append.1 hq with hq | hq
    · exact h q hq
    · rw [List.mem_singleton.1 hq]
      exact ok_fresh _ _ (wp_program instance_)
  | exec pid host =>
    simp only [DeviceSys.step] at hstep
    split at hstep
    · cases hstep
    · next p hp =>
      split at hstep
      · cases hstep
      · cases hstep
      · next c k hprog =>
        cases hstep
        exact h.perform (List.mem_of_getElem? hp) hprog
  | kill pid =>
    simp only [DeviceSys.step] at hstep
    split at hstep
    · cases hstep
    · cases hstep
      exact (h.setProc (ok_fresh _ _ ((Prog.wp_pure ()).2 trivial))).release

end DeviceSys

end Anylinuxfs
