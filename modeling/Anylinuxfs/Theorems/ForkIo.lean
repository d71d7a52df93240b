import Anylinuxfs.ForkIo

/-!
# Descriptors after a fork

What the processes have on both sides of a fork, exactly: the standard descriptors of the child, the ends of the pipes that the
parent keeps, and that everything else is as it was.
-/

namespace Anylinuxfs

open Posix (FdTable)

namespace ForkIo

variable {limit : Nat} {t t' : Fds}

/-! ## One call after another -/

theorem bind_eq_ok {α β : Type} {x : FdM α} {f : α → FdM β} {r : β × Fds} (h : (x >>= f) t = .ok r) :
    ∃ a t₁, x t = .ok (a, t₁) ∧ f a t₁ = .ok r := by
  change (x t >>= fun p => f p.1 p.2) = .ok r at h
  cases hx : x t with
  | error e =>
    rw [hx] at h
    cases h
  | ok p =>
    rw [hx] at h
    exact ⟨p.1, p.2, rfl, h⟩

theorem bind_ok {α β : Type} {x : FdM α} {a : α} (h : x t = .ok (a, t')) (f : α → FdM β) : (x >>= f) t = f a t' := by
  change (x t >>= fun p => f p.1 p.2) = f a t'
  rw [h]
  rfl

theorem checked_eq_ok {α : Type} {call : Fds → Option (α × Fds)} {text : String} {r : α × Fds} (h : checked call text t = .ok r) :
    call t = some r := by
  unfold checked at h
  split at h
  · next r' hr =>
    cases h
    exact hr
  · cases h

/-- A context changes nothing but errors. -/
theorem withContext_eq_ok {α : Type} {text : String} {m : FdM α} {r : α × Fds} : withContext text m t = .ok r ↔ m t = .ok r := by
  unfold withContext
  cases m t <;> simp

theorem of_closeFd {fd : Nat} {text : String} {u : Unit} (h : closeFd fd text t = .ok (u, t')) :
    t' = Function.update t fd none := by
  obtain ⟨t₁, hclose, heq⟩ := Option.map_eq_some_iff.1 (checked_eq_ok h)
  cases heq
  exact (FdTable.close_eq_some.1 hclose).2

theorem of_redirectFd {fd target : Nat} {text : String} {u : Unit} (h : redirectFd fd target text t = .ok (u, t')) :
    ∃ file, t fd = some file ∧ t' = Function.update t target (some file) := by
  obtain ⟨t₁, hdup, heq⟩ := Option.map_eq_some_iff.1 (checked_eq_ok h)
  cases heq
  exact FdTable.dup2_eq_some.1 hdup

theorem update_free {n : Nat} (h : t n = none) : Function.update t n none = t := by
  rw [← h, Function.update_eq_self]

/-! ## Pipes -/

/-- The three pipes, in the order in which they are made. -/
structure Pipes (t t' : Fds) (out err input : Nat × Nat) : Prop where
  out_lt : out.1 < out.2
  err_gt : out.2 < err.1
  err_lt : err.1 < err.2
  input_gt : err.2 < input.1
  input_lt : input.1 < input.2
  free : ∀ n ∈ [out.1, out.2, err.1, err.2, input.1, input.2], t n = none
  below : ∀ m < out.2, m ≠ out.1 → t m ≠ none
  table : t' = Function.update (Function.update (Function.update (Function.update (Function.update (Function.update t
    out.1 (some (.readEnd .out))) out.2 (some (.writeEnd .out))) err.1 (some (.readEnd .err))) err.2 (some (.writeEnd .err)))
    input.1 (some (.readEnd .input))) input.2 (some (.writeEnd .input))

/-- Descriptors that are free after others have been taken were free before, and come later. -/
theorem gt_of_free {a b c : Nat} {f g : File} (hbelow : ∀ m < b, m ≠ a → t m ≠ none)
    (hfree : Function.update (Function.update t a (some f)) b (some g) c = none) : b < c ∧ t c = none := by
  have hcb : c ≠ b := by
    rintro rfl
    rw [Function.update_self] at hfree
    cases hfree
  rw [Function.update_of_ne hcb] at hfree
  have hca : c ≠ a := by
    rintro rfl
    rw [Function.update_self] at hfree
    cases hfree
  rw [Function.update_of_ne hca] at hfree
  refine ⟨Nat.lt_of_not_le fun hle => ?_, hfree⟩
  exact hbelow c (Nat.lt_of_le_of_ne hle hcb) hca hfree

theorem pipes_of_ok {out err input : Nat × Nat} {t₁ t₂ : Fds} (h₁ : newPipe limit .out t = .ok (out, t₁))
    (h₂ : newPipe limit .err t₁ = .ok (err, t₂)) (h₃ : newPipe limit .input t₂ = .ok (input, t')) : Pipes t t' out err input := by
  obtain ⟨hout, -, ho₁, ho₂, hobelow, rfl⟩ := FdTable.of_pipe (checked_eq_ok h₁)
  obtain ⟨herr, -, he₁, he₂, hebelow, rfl⟩ := FdTable.of_pipe (checked_eq_ok h₂)
  obtain ⟨hinput, -, hi₁, hi₂, -, rfl⟩ := FdTable.of_pipe (checked_eq_ok h₃)
  obtain ⟨herr₁, he₁⟩ := gt_of_free hobelow he₁
  obtain ⟨-, he₂⟩ := gt_of_free hobelow he₂
  obtain ⟨hinput₁, hi₁⟩ := gt_of_free hebelow hi₁
  obtain ⟨-, hi₁⟩ := gt_of_free hobelow hi₁
  obtain ⟨-, hi₂⟩ := gt_of_free hebelow hi₂
  obtain ⟨-, hi₂⟩ := gt_of_free hobelow hi₂
  refine ⟨hout, herr₁, herr, hinput₁, hinput, fun n hn => ?_, hobelow, rfl⟩
  simp only [List.mem_cons, List.not_mem_nil, or_false] at hn
  obtain rfl | rfl | rfl | rfl | rfl | rfl := hn <;> assumption

/-! ## Piped output -/

/-- The parent has got the ends of the pipes that are not for the child. -/
theorem Pipes.parent {out err input : Nat × Nat} (h : Pipes t t' out err input) :
    Function.update (Function.update (Function.update t' input.1 none) out.2 none) err.2 none =
      Function.update (Function.update (Function.update t out.1 (some (.readEnd .out))) err.1 (some (.readEnd .err)))
        input.2 (some (.writeEnd .input)) := by
  obtain ⟨out, out'⟩ := out
  obtain ⟨err, err'⟩ := err
  obtain ⟨input, input'⟩ := input
  obtain ⟨h₁, h₂, h₃, h₄, h₅, hfree, -, rfl⟩ := h
  simp only [List.mem_cons, List.not_mem_nil, or_false, forall_eq_or_imp, forall_eq] at h₁ h₂ h₃ h₄ h₅ hfree ⊢
  funext n
  obtain rfl | rfl | rfl | rfl | rfl | rfl | ⟨hn₁, hn₂, hn₃, hn₄, hn₅, hn₆⟩ : n = out ∨ n = out' ∨ n = err ∨ n = err' ∨ n = input ∨
      n = input' ∨ n ≠ out ∧ n ≠ out' ∧ n ≠ err ∧ n ≠ err' ∧ n ≠ input ∧ n ≠ input' := by omega
  all_goals simp (disch := omega) only [Function.update_self, Function.update_of_ne, hfree]

/-- The ends that the parent keeps are three. -/
theorem Pipes.distinct {out err input : Nat × Nat} (h : Pipes t t' out err input) :
    out.1 ≠ err.1 ∧ out.1 ≠ input.2 ∧ err.1 ≠ input.2 := by
  obtain ⟨h₁, h₂, h₃, h₄, h₅, -, -, -⟩ := h
  refine ⟨?_, ?_, ?_⟩ <;> omega

/-- What the child makes of its descriptors. -/
def childFds (t : Fds) (out err input : Nat × Nat) : Fds :=
  Function.update (Function.update (withStdio (Function.update (Function.update (Function.update (Function.update t input.2 none)
    out.1 none) err.1 none) input.1 none) (.readEnd .input) (.writeEnd .out) (.writeEnd .err)) out.2 none) err.2 none

/-- Of the two lowest descriptors that are free, the second is a standard one exactly if more than one of these are closed. -/
theorem two_lt_iff {m n : Nat} (hlt : m < n) (hm : t m = none) (hn : t n = none) (hbelow : ∀ k < n, k ≠ m → t k ≠ none) :
    2 < n ↔ AtMostOneClosed t := by
  constructor
  · intro htwo i j hi hj hfi hfj
    have hof : ∀ k < 3, t k = none → k = m := fun k hk hfree =>
      by_contra fun hne => hbelow k (by omega) hne hfree
    rw [hof i hi hfi, hof j hj hfj]
  · intro hclosed
    by_contra hle
    have heq := hclosed m n (by omega) (by omega) hm hn
    omega

/-- The child's standard descriptors are the pipes, and nothing else of them is left, exactly if the write end of the first pipe is
not closed under one of these numbers. -/
theorem Pipes.childFds_eq_iff {out err input : Nat × Nat} (h : Pipes t t' out err input) :
    childFds t' out err input = withStdio t (.readEnd .input) (.writeEnd .out) (.writeEnd .err) ↔ 2 < out.2 := by
  obtain ⟨out, out'⟩ := out
  obtain ⟨err, err'⟩ := err
  obtain ⟨input, input'⟩ := input
  obtain ⟨h₁, h₂, h₃, h₄, h₅, hfree, -, rfl⟩ := h
  simp only [List.mem_cons, List.not_mem_nil, or_false, forall_eq_or_imp, forall_eq] at h₁ h₂ h₃ h₄ h₅ hfree ⊢
  unfold childFds withStdio
  dsimp only
  constructor
  · intro heq
    by_contra hle
    have hout := congrFun heq out'
    rw [Function.update_of_ne (by omega), Function.update_self] at hout
    obtain rfl | rfl : out' = 1 ∨ out' = 2 := by omega
    · rw [Function.update_of_ne (by decide), Function.update_self] at hout
      cases hout
    · rw [Function.update_self] at hout
      cases hout
  · intro hlt
    funext n
    obtain rfl | rfl | rfl | ⟨hn, rfl⟩ | rfl | rfl | rfl | rfl | rfl | ⟨hn, hn₁, hn₂, hn₃, hn₄, hn₅, hn₆⟩ : n = 0 ∨ n = 1 ∨ n = 2 ∨
        2 < n ∧ n = out ∨ n = out' ∨ n = err ∨ n = err' ∨ n = input ∨ n = input' ∨
        2 < n ∧ n ≠ out ∧ n ≠ out' ∧ n ≠ err ∧ n ≠ err' ∧ n ≠ input ∧ n ≠ input' := by omega
    all_goals simp (disch := omega) only [Function.update_self, Function.update_of_ne, hfree]

/-- The child ends up with these descriptors. -/
theorem child_of_ok {r : PipeFds} (h : forkWithPipedOutput limit .child t = .ok (r, t')) :
    ∃ out err input t₁, Pipes t t₁ out err input ∧ t' = childFds t₁ out err input := by
  obtain ⟨out, t₁, hout, h⟩ := bind_eq_ok h
  obtain ⟨err, t₂, herr, h⟩ := bind_eq_ok h
  obtain ⟨input, t₃, hinput, h⟩ := bind_eq_ok h
  have hpipes := pipes_of_ok hout herr hinput
  refine ⟨out, err, input, t₃, hpipes, ?_⟩
  clear hout herr hinput
  obtain ⟨⟨⟩, t₄, hclose, h⟩ := bind_eq_ok h
  obtain rfl := of_closeFd hclose
  obtain ⟨⟨⟩, t₅, hclose, h⟩ := bind_eq_ok h
  obtain rfl := of_closeFd hclose
  obtain ⟨⟨⟩, t₆, hclose, h⟩ := bind_eq_ok h
  obtain rfl := of_closeFd hclose
  obtain ⟨⟨⟩, t₇, hstdin, h⟩ := bind_eq_ok h
  obtain ⟨stdin, hin, rfl⟩ := of_redirectFd hstdin
  obtain ⟨⟨⟩, t₈, hclose, h⟩ := bind_eq_ok h
  obtain rfl := of_closeFd hclose
  obtain ⟨⟨⟩, t₉, hstdout, h⟩ := bind_eq_ok h
  obtain ⟨stdout, hout, rfl⟩ := of_redirectFd hstdout
  obtain ⟨⟨⟩, t₁₀, hstderr, h⟩ := bind_eq_ok h
  obtain ⟨stderr, herr, rfl⟩ := of_redirectFd hstderr
  obtain ⟨⟨⟩, t₁₁, hclose, h⟩ := bind_eq_ok h
  obtain rfl := of_closeFd hclose
  obtain ⟨⟨⟩, t₁₂, hclose, h⟩ := bind_eq_ok h
  obtain rfl := of_closeFd hclose
  cases h
  obtain ⟨h₁, h₂, h₃, h₄, h₅, -, -, rfl⟩ := hpipes
  simp (disch := omega) only [Function.update_self, Function.update_of_ne] at hin hout herr
  cases hin
  cases hout
  cases herr
  unfold childFds withStdio
  rw [Function.update_comm (show (0 : Nat) ≠ input.1 by omega)]

theorem parent_of_ok {r : PipeFds} (h : forkWithPipedOutput limit .parent t = .ok (r, t')) :
    ∃ out err input t₁, Pipes t t₁ out err input ∧ r = ⟨out.1, err.1, input.2⟩ ∧
      t' = Function.update (Function.update (Function.update t₁ input.1 none) out.2 none) err.2 none := by
  obtain ⟨out, t₁, hout, h⟩ := bind_eq_ok h
  obtain ⟨err, t₂, herr, h⟩ := bind_eq_ok h
  obtain ⟨input, t₃, hinput, h⟩ := bind_eq_ok h
  obtain ⟨⟨⟩, t₄, hclose, h⟩ := bind_eq_ok h
  obtain rfl := of_closeFd hclose
  obtain ⟨⟨⟩, t₅, hclose, h⟩ := bind_eq_ok h
  obtain rfl := of_closeFd hclose
  obtain ⟨⟨⟩, t₆, hclose, h⟩ := bind_eq_ok h
  obtain rfl := of_closeFd hclose
  cases h
  exact ⟨out, err, input, t₃, pipes_of_ok hout herr hinput, rfl, rfl⟩

/-- After the fork, the child talks to the parent on the standard descriptors and has nothing else of the pipes, exactly if at
most one of these descriptors was closed; the parent has gained the other three ends, under descriptors that were free. -/
theorem forkWithPipedOutput_spec {tc tp : Fds} {rc rp : PipeFds} (hchild : forkWithPipedOutput limit .child t = .ok (rc, tc))
    (hparent : forkWithPipedOutput limit .parent t = .ok (rp, tp)) :
    (tc = withStdio t (.readEnd .input) (.writeEnd .out) (.writeEnd .err) ↔ AtMostOneClosed t) ∧
      tp = Function.update (Function.update (Function.update t rp.outFd (some (.readEnd .out))) rp.errFd (some (.readEnd .err)))
        rp.inFd (some (.writeEnd .input)) ∧
      (rp.outFd ≠ rp.errFd ∧ rp.outFd ≠ rp.inFd ∧ rp.errFd ≠ rp.inFd) ∧
      t rp.outFd = none ∧ t rp.errFd = none ∧ t rp.inFd = none := by
  obtain ⟨out, err, input, t₁, hpipes, rfl⟩ := child_of_ok hchild
  obtain ⟨out', err', input', t₂, hpipes', rfl, rfl⟩ := parent_of_ok hparent
  have htwo := two_lt_iff hpipes.out_lt (hpipes.free _ (by simp)) (hpipes.free _ (by simp)) hpipes.below
  refine ⟨hpipes.childFds_eq_iff.trans htwo, hpipes'.parent, hpipes'.distinct, ?_, ?_, ?_⟩
  · exact hpipes'.free _ (by simp)
  · exact hpipes'.free _ (by simp)
  · exact hpipes'.free _ (by simp)

/-- A process that has a terminal and nothing else. -/
def terminalFds : Fds := fun n => if n < 3 then some (.other 0) else none

theorem forkWithPipedOutput_terminal :
    ∃ tc tp rc rp, forkWithPipedOutput 16 .child terminalFds = .ok (rc, tc) ∧
      forkWithPipedOutput 16 .parent terminalFds = .ok (rp, tp) ∧
      tc = withStdio terminalFds (.readEnd .input) (.writeEnd .out) (.writeEnd .err) ∧ rp = ⟨3, 5, 8⟩ :=
  have hchild : forkWithPipedOutput 16 .child terminalFds = .ok (⟨3, 5, 8⟩, _) := rfl
  have hspec := forkWithPipedOutput_spec hchild rfl
  ⟨_, _, _, _, hchild, rfl, hspec.1.2 fun m n hm hn hfree => by simp [terminalFds, hm] at hfree, rfl⟩

/-! ## The terminal of the VM -/

/-- The redirection takes the slave's own descriptor away, which may be one of those that it has just set. -/
theorem of_redirectToPty {slaveFd : Nat} {u : Unit} (hslave : t slaveFd = some .ptySlave)
    (h : redirectToPty slaveFd t = .ok (u, t')) :
    t' = Function.update (withStdio t .ptySlave .ptySlave .ptySlave) slaveFd none := by
  have hupdate : ∀ (t : Fds) (target : Nat), t slaveFd = some .ptySlave →
      Function.update t target (some .ptySlave) slaveFd = some .ptySlave := by
    intro t target ht
    by_cases htarget : slaveFd = target
    · rw [htarget, Function.update_self]
    · rw [Function.update_of_ne htarget, ht]
  obtain ⟨⟨⟩, t₁, hstdout, h⟩ := bind_eq_ok h
  obtain ⟨file, hfile, rfl⟩ := of_redirectFd hstdout
  obtain rfl : file = .ptySlave := Option.some.inj (hfile.symm.trans hslave)
  obtain ⟨⟨⟩, t₂, hstderr, h⟩ := bind_eq_ok h
  obtain ⟨file, hfile', rfl⟩ := of_redirectFd hstderr
  obtain rfl : file = .ptySlave := Option.some.inj (hfile'.symm.trans (hupdate _ _ hslave))
  obtain ⟨⟨⟩, t₃, hstdin, h⟩ := bind_eq_ok h
  obtain ⟨file, hfile'', rfl⟩ := of_redirectFd hstdin
  obtain rfl : file = .ptySlave := Option.some.inj (hfile''.symm.trans (hupdate _ _ (hupdate _ _ hslave)))
  obtain rfl := of_closeFd h
  unfold withStdio
  rw [Function.update_comm (show (2 : Nat) ≠ 0 by decide), Function.update_comm (show (1 : Nat) ≠ 0 by decide)]

/-- A child that redirects later does so from whatever descriptors it has by then; its standard descriptors are the terminal's, and
the slave has no other, exactly if the slave is not a standard descriptor itself. -/
theorem redirectToPty_stdio_iff {slaveFd : Nat} {u : Unit} (hslave : t slaveFd = some .ptySlave)
    (h : redirectToPty slaveFd t = .ok (u, t')) :
    t' = withStdio (Function.update t slaveFd none) .ptySlave .ptySlave .ptySlave ↔ 2 < slaveFd := by
  obtain rfl := of_redirectToPty hslave h
  constructor
  · intro heq
    by_contra hle
    have hclosed := congrFun heq slaveFd
    rw [Function.update_self] at hclosed
    obtain rfl | rfl | rfl : slaveFd = 0 ∨ slaveFd = 1 ∨ slaveFd = 2 := by omega
    all_goals cases hclosed
  · intro hlt
    unfold withStdio
    rw [Function.update_comm (show (2 : Nat) ≠ slaveFd by omega), Function.update_comm (show (1 : Nat) ≠ slaveFd by omega),
      Function.update_comm (show (0 : Nat) ≠ slaveFd by omega)]

/-- After the fork the child has the slave, to which it is redirected at once or later, and the parent has the master. -/
theorem forkWithPtyOutput_spec {tc tp : Fds} {rc rp : Option Nat × Option Nat}
    (hchild : forkWithPtyOutput limit false .child t = .ok (rc, tc)) (hparent : forkWithPtyOutput limit false .parent t = .ok (rp, tp)) :
    ∃ masterFd slaveFd, rc = (none, some slaveFd) ∧ rp = (some masterFd, none) ∧ t masterFd = none ∧ t slaveFd = none ∧
      tc = Function.update t slaveFd (some .ptySlave) ∧ tp = Function.update t masterFd (some .ptyMaster) ∧
      (2 < slaveFd ↔ AtMostOneClosed t) := by
  obtain ⟨pty, t₁, hpty, hchild⟩ := bind_eq_ok hchild
  obtain ⟨hlt, -, hmaster, hslave, hbelow, rfl⟩ := FdTable.of_pipe (checked_eq_ok hpty)
  obtain ⟨pty', t₂, hpty', hparent⟩ := bind_eq_ok hparent
  rw [hpty] at hpty'
  cases hpty'
  obtain ⟨⟨⟩, t₃, hclose, hchild⟩ := bind_eq_ok hchild
  obtain rfl := of_closeFd hclose
  obtain ⟨⟨⟩, t₄, hclose', hparent⟩ := bind_eq_ok hparent
  obtain rfl := of_closeFd hclose'
  cases hchild
  cases hparent
  refine ⟨pty.1, pty.2, rfl, rfl, hmaster, hslave, ?_, ?_, two_lt_iff hlt hmaster hslave hbelow⟩
  · rw [Function.update_comm (show pty.2 ≠ pty.1 by omega), Function.update_idem, update_free hmaster]
  · rw [Function.update_idem, Function.update_comm (show pty.1 ≠ pty.2 by omega), update_free hslave]

/-! ## `/dev/null` -/

/-- The communication pipe is left with one end on each side. -/
theorem forkWithCommPipe_spec {tc tp : Fds} {rc rp : Nat} (hchild : forkWithCommPipe limit .child t = .ok (rc, tc))
    (hparent : forkWithCommPipe limit .parent t = .ok (rp, tp)) :
    t rc = none ∧ t rp = none ∧ tc = Function.update t rc (some (.writeEnd .comm)) ∧
      tp = Function.update t rp (some (.readEnd .comm)) := by
  obtain ⟨comm, t₁, hcomm, hchild⟩ := bind_eq_ok hchild
  obtain ⟨hlt, -, hread, hwrite, -, rfl⟩ := FdTable.of_pipe (checked_eq_ok hcomm)
  obtain ⟨comm', t₂, hcomm', hparent⟩ := bind_eq_ok hparent
  rw [hcomm] at hcomm'
  cases hcomm'
  obtain ⟨⟨⟩, t₃, hclose, hchild⟩ := bind_eq_ok hchild
  obtain rfl := of_closeFd hclose
  obtain ⟨⟨⟩, t₄, hclose', hparent⟩ := bind_eq_ok hparent
  obtain rfl := of_closeFd hclose'
  cases hchild
  cases hparent
  refine ⟨hwrite, hread, ?_, ?_⟩
  · rw [Function.update_comm (show comm.2 ≠ comm.1 by omega), Function.update_idem, update_free hread]
  · rw [Function.update_idem, Function.update_comm (show comm.1 ≠ comm.2 by omega), update_free hwrite]

/-- Closing the descriptor of a file that has also got another one. -/
theorem close_opened {n fd : Nat} (hfree : t n = none) (hn : n ≠ fd) (file : File) :
    Function.update (Function.update (Function.update t n (some file)) fd (some file)) n none = Function.update t fd (some file) := by
  rw [Function.update_comm hn, Function.update_idem, Function.update_eq_self_iff, Function.update_of_ne hn, hfree]

/-- `redirect_to_null` needs a descriptor that is free, and leaves it so unless it is the one asked for. -/
theorem redirectToNull_eq_ok {fd : Nat} :
    redirectToNull limit fd t = .ok ((), t') ↔ (∃ n < limit, t n = none) ∧ t' = Function.update t fd (some .devNull) := by
  rw [← FdTable.lowestFree_isSome, Option.isSome_iff_exists]
  constructor
  · intro h
    obtain ⟨n, t₁, hopen, h⟩ := bind_eq_ok h
    obtain ⟨hlowest, rfl⟩ := FdTable.openFile_eq_some.1 (checked_eq_ok hopen)
    obtain ⟨-, hfree, -⟩ := FdTable.lowestFree_eq_some.1 hlowest
    obtain ⟨⟨⟩, t₂, hdup, h⟩ := bind_eq_ok h
    obtain ⟨file, hfile, rfl⟩ := of_redirectFd hdup
    rw [Function.update_self] at hfile
    cases hfile
    refine ⟨⟨n, hlowest⟩, ?_⟩
    by_cases hn : n = fd
    · subst hn
      rw [if_neg (fun hne => hne rfl)] at h
      cases h
      rw [Function.update_idem]
    · rw [if_pos hn] at h
      obtain rfl := of_closeFd h
      exact close_opened hfree hn _
  · rintro ⟨⟨n, hlowest⟩, rfl⟩
    obtain ⟨-, hfree, -⟩ := FdTable.lowestFree_eq_some.1 hlowest
    have hopen : checked (FdTable.openFile limit .devNull) "Failed to open /dev/null" t =
        .ok (n, Function.update t n (some .devNull)) := by
      unfold checked
      rw [FdTable.openFile_eq_some.2 ⟨hlowest, rfl⟩]
    have hdup : redirectFd n fd "Failed to redirect fd to /dev/null" (Function.update t n (some .devNull)) =
        .ok ((), Function.update (Function.update t n (some .devNull)) fd (some .devNull)) := by
      simp [redirectFd, checked, FdTable.dup2]
    refine (bind_ok hopen _).trans ((bind_ok hdup _).trans ?_)
    by_cases hn : n = fd
    · subst hn
      rw [if_neg (fun hne => hne rfl), Function.update_idem]
      rfl
    · rw [if_pos hn]
      simp [closeFd, checked, FdTable.close, Function.update_of_ne hn, close_opened hfree hn]

/-- Detaching from the terminal succeeds exactly if a descriptor other than the first two is free, and then the standard
descriptors refer to `/dev/null` and all others to what they did. -/
theorem redirectStdioToNull_eq_ok :
    redirectStdioToNull limit t = .ok ((), t') ↔
      (∃ n < limit, 2 ≤ n ∧ t n = none) ∧ t' = withStdio t .devNull .devNull .devNull := by
  constructor
  · intro h
    obtain ⟨⟨⟩, t₁, hstdin, h⟩ := bind_eq_ok h
    obtain ⟨-, rfl⟩ := redirectToNull_eq_ok.1 (withContext_eq_ok.1 hstdin)
    obtain ⟨⟨⟩, t₂, hstdout, h⟩ := bind_eq_ok h
    obtain ⟨-, rfl⟩ := redirectToNull_eq_ok.1 (withContext_eq_ok.1 hstdout)
    obtain ⟨⟨n, hn, hfree⟩, rfl⟩ := redirectToNull_eq_ok.1 (withContext_eq_ok.1 h)
    have hone : n ≠ 1 := by
      rintro rfl
      rw [Function.update_self] at hfree
      cases hfree
    rw [Function.update_of_ne hone] at hfree
    have hzero : n ≠ 0 := by
      rintro rfl
      rw [Function.update_self] at hfree
      cases hfree
    rw [Function.update_of_ne hzero] at hfree
    exact ⟨⟨n, hn, by omega, hfree⟩, rfl⟩
  · rintro ⟨⟨n, hn, htwo, hfree⟩, rfl⟩
    have hstdin : redirectToNull limit 0 t = .ok ((), Function.update t 0 (some .devNull)) :=
      redirectToNull_eq_ok.2 ⟨⟨n, hn, hfree⟩, rfl⟩
    have hfree₁ : Function.update t 0 (some .devNull) n = none := by rw [Function.update_of_ne (by omega), hfree]
    have hstdout : redirectToNull limit 1 (Function.update t 0 (some .devNull)) =
        .ok ((), Function.update (Function.update t 0 (some .devNull)) 1 (some .devNull)) :=
      redirectToNull_eq_ok.2 ⟨⟨n, hn, hfree₁⟩, rfl⟩
    have hfree₂ : Function.update (Function.update t 0 (some .devNull)) 1 (some .devNull) n = none := by
      rw [Function.update_of_ne (by omega), hfree₁]
    exact (bind_ok (withContext_eq_ok.2 hstdin) _).trans
      ((bind_ok (withContext_eq_ok.2 hstdout) _).trans (withContext_eq_ok.2 (redirectToNull_eq_ok.2 ⟨⟨n, hn, hfree₂⟩, rfl⟩)))

end ForkIo

end Anylinuxfs
