import Anylinuxfs.Lib.Eventually
import Mathlib.Algebra.BigOperators.Group.Finset.Basic
import Mathlib.Algebra.Order.BigOperators.Group.Finset
import Mathlib.Data.Fintype.BigOperators

/-!
# A process that writes into pipes

A process writes into several pipes and ends; readers read them. A reader has a list of pipes, which it reads one after another, each
to its end; readers run beside each other. A pipe holds a bounded number of bytes: who writes into a full one waits, and so does
who reads from an empty one as long as the process runs. A step is one byte, the end of the process, or an end of file.
-/

namespace Pipes

open Transition (Reach Any Inevitable)

variable {C β : Type}

/-- The process with the bytes it has still to write, the pipes, what has been read from each, and the pipes that each reader has
still to read. -/
structure State (C β : Type) where
  todo : List (C × β)
  running : Bool := true
  pipe : C → List β := fun _ => []
  got : C → List β := fun _ => []
  readers : List (List C)

/-- Who makes the next step: the process writes a byte or ends, or a reader reads. -/
inductive Act where
  | write | exit | read (i : Nat)
  deriving DecidableEq, Repr

section

variable [DecidableEq C]

/-- One step. -/
def step (cap : Nat) (s : State C β) : Act → Option (State C β)
  | .write =>
    match s.todo with
    | [] => none
    | (c, b) :: rest =>
      if (s.pipe c).length < cap then some { s with todo := rest, pipe := Function.update s.pipe c (s.pipe c ++ [b]) } else none
  | .exit => if s.todo.isEmpty && s.running then some { s with running := false } else none
  | .read i =>
    match s.readers[i]? with
    | some (c :: rest) =>
      match s.pipe c with
      | b :: bs => some { s with pipe := Function.update s.pipe c bs, got := Function.update s.got c (s.got c ++ [b]) }
      | [] => if s.running then none else some { s with readers := s.readers.set i rest }
    | _ => none

/-- What is written into a pipe. -/
def sent (output : List (C × β)) (c : C) : List β := (output.filter fun w => w.1 = c).map Prod.snd

end

/-- The process has ended, and so have all readers. -/
def State.Done (s : State C β) : Prop := s.running = false ∧ ∀ r ∈ s.readers, r = []

/-- The pipes that are read first. -/
def heads (readers : List (List C)) : List C := readers.filterMap List.head?

/-- Nothing has been written yet. -/
def init (output : List (C × β)) (readers : List (List C)) : State C β := { todo := output, readers := readers }

variable [DecidableEq C] {cap : Nat} {output : List (C × β)} {readers : List (List C)} {s s' : State C β} {c : C}

theorem sent_nil : sent ([] : List (C × β)) c = [] := rfl

theorem sent_cons_self (b : β) (rest : List (C × β)) : sent ((c, b) :: rest) c = b :: sent rest c := by
  simp [sent]

theorem sent_cons_of_ne {c' : C} (h : c' ≠ c) (b : β) (rest : List (C × β)) : sent ((c', b) :: rest) c = sent rest c := by
  simp [sent, h]

/-! ## What a step can do -/

/-- The steps, one by one. -/
theorem step_cases {a : Act} (h : step cap s a = some s') :
    (∃ c b rest, s.todo = (c, b) :: rest ∧ (s.pipe c).length < cap ∧
      s' = { s with todo := rest, pipe := Function.update s.pipe c (s.pipe c ++ [b]) }) ∨
    (s.todo = [] ∧ s.running = true ∧ s' = { s with running := false }) ∨
    (∃ (i : Nat) (c : C) (rest : List C), s.readers[i]? = some (c :: rest) ∧
      ((∃ b bs, s.pipe c = b :: bs ∧
          s' = { s with pipe := Function.update s.pipe c bs, got := Function.update s.got c (s.got c ++ [b]) }) ∨
        (s.pipe c = [] ∧ s.running = false ∧ s' = { s with readers := s.readers.set i rest }))) := by
  cases a with
  | write =>
    simp only [step] at h
    split at h
    · cases h
    · next c b rest htodo =>
      split at h
      · next hroom => exact .inl ⟨c, b, rest, htodo, hroom, (Option.some.inj h).symm⟩
      · cases h
  | exit =>
    simp only [step] at h
    split at h
    · next hend =>
      obtain ⟨htodo, hrunning⟩ := Bool.and_eq_true_iff.1 hend
      exact .inr (.inl ⟨List.isEmpty_iff.1 htodo, hrunning, (Option.some.inj h).symm⟩)
    · cases h
  | read i =>
    simp only [step] at h
    split at h
    · next c rest hreader =>
      refine .inr (.inr ⟨i, c, rest, hreader, ?_⟩)
      split at h
      · next b bs hpipe => exact .inl ⟨b, bs, hpipe, (Option.some.inj h).symm⟩
      · next hpipe =>
        split at h
        · cases h
        · next hended => exact .inr ⟨hpipe, Bool.eq_false_iff.2 hended, (Option.some.inj h).symm⟩
    · cases h

/-! ## The invariant -/

/-- Nothing is lost and nothing changes its place; while the process runs, no reader has come to the end of its first pipe. -/
structure Inv (cap : Nat) (output : List (C × β)) (readers : List (List C)) (s : State C β) : Prop where
  kept : ∀ c, s.got c ++ (s.pipe c ++ sent s.todo c) = sent output c
  bounded : ∀ c, (s.pipe c).length ≤ cap
  waiting : s.running = true → s.readers = readers
  unread : s.running = true → ∀ c ∉ heads readers, s.got c = []
  ended : s.running = false → s.todo = []
  passed : ∀ c ∈ readers.flatten, c ∉ s.readers.flatten → s.running = false ∧ s.pipe c = []

theorem inv_init : Inv cap output readers (init output readers) where
  kept c := rfl
  bounded c := Nat.zero_le cap
  waiting _ := rfl
  unread _ c _ := rfl
  ended h := by cases h
  passed c hc hnot := absurd hc hnot

omit [DecidableEq C] in
theorem mem_heads {i : Nat} {rest : List C} (h : readers[i]? = some (c :: rest)) : c ∈ heads readers :=
  List.mem_filterMap.2 ⟨c :: rest, List.mem_of_getElem? h, rfl⟩

omit [DecidableEq C] in
/-- Of what the readers have to read, only a head that has come to its end goes. -/
theorem mem_flatten_set {rs : List (List C)} {i : Nat} {rest : List C} {c' : C} (h : rs[i]? = some (c :: rest))
    (hmem : c' ∈ rs.flatten) (hnot : c' ∉ (rs.set i rest).flatten) : c' = c := by
  obtain ⟨r, hr, hc'⟩ := List.mem_flatten.1 hmem
  obtain ⟨j, hj⟩ := List.mem_iff_getElem?.1 hr
  by_cases hij : j = i
  · rw [hij, h] at hj
    cases hj
    refine (List.mem_cons.1 hc').resolve_right fun hrest => hnot ?_
    refine List.mem_flatten.2 ⟨rest, List.mem_iff_getElem?.2 ⟨i, ?_⟩, hrest⟩
    exact List.getElem?_set_self (List.getElem?_eq_some_iff.1 h).1
  · refine absurd (List.mem_flatten.2 ⟨r, List.mem_iff_getElem?.2 ⟨j, ?_⟩, hc'⟩) hnot
    rw [List.getElem?_set_ne (Ne.symm hij), hj]

theorem Inv.after {a : Act} (h : Inv cap output readers s) (hs : step cap s a = some s') : Inv cap output readers s' := by
  obtain ⟨c, b, rest, htodo, hroom, rfl⟩ | ⟨htodo, hrunning, rfl⟩ |
    ⟨i, c, rest, hreader, ⟨b, bs, hpipe, rfl⟩ | ⟨hpipe, hended, rfl⟩⟩ := step_cases hs
  · have hrunning : s.running = true := by
      by_contra hnot
      have hnil := h.ended (Bool.eq_false_iff.2 hnot)
      rw [htodo] at hnil
      cases hnil
    refine ⟨fun c' => ?_, fun c' => ?_, h.waiting, h.unread, fun hended => ?_, fun c' hc' hnot => ?_⟩
    · rw [← h.kept c', htodo]
      dsimp only
      by_cases hc : c' = c
      · subst hc
        rw [Function.update_self, sent_cons_self, List.append_assoc]
        rfl
      · rw [Function.update_of_ne hc, sent_cons_of_ne (Ne.symm hc)]
    · dsimp only
      by_cases hc : c' = c
      · subst hc
        rw [Function.update_self, List.length_append]
        exact hroom
      · rw [Function.update_of_ne hc]
        exact h.bounded c'
    · rw [hrunning] at hended
      cases hended
    · have hended := (h.passed c' hc' hnot).1
      rw [hrunning] at hended
      cases hended
  · refine ⟨h.kept, h.bounded, fun hr => (by cases hr), fun hr => (by cases hr), fun _ => htodo, fun c' hc' hnot => ?_⟩
    have hended := (h.passed c' hc' hnot).1
    rw [hrunning] at hended
    cases hended
  · refine ⟨fun c' => ?_, fun c' => ?_, h.waiting, fun hr c' hc' => ?_, h.ended, fun c' hc' hnot => ?_⟩
    · rw [← h.kept c']
      dsimp only
      by_cases hc : c' = c
      · subst hc
        rw [Function.update_self, Function.update_self, hpipe, List.append_assoc]
        rfl
      · rw [Function.update_of_ne hc, Function.update_of_ne hc]
    · dsimp only
      by_cases hc : c' = c
      · subst hc
        rw [Function.update_self]
        have hlen := h.bounded c'
        rw [hpipe, List.length_cons] at hlen
        omega
      · rw [Function.update_of_ne hc]
        exact h.bounded c'
    · dsimp only
      rw [h.waiting hr] at hreader
      have hc : c' ≠ c := fun heq => hc' (heq ▸ mem_heads hreader)
      rw [Function.update_of_ne hc]
      exact h.unread hr c' hc'
    · obtain ⟨hended, hnil⟩ := h.passed c' hc' hnot
      have hc : c' ≠ c := fun heq => by
        rw [heq, hpipe] at hnil
        cases hnil
      refine ⟨hended, ?_⟩
      dsimp only
      rw [Function.update_of_ne hc, hnil]
  · refine ⟨h.kept, h.bounded, fun hr => ?_, fun hr => ?_, h.ended, fun c' hc' hnot => ?_⟩
    · rw [hended] at hr
      cases hr
    · rw [hended] at hr
      cases hr
    · by_cases hmem : c' ∈ s.readers.flatten
      · rw [mem_flatten_set hreader hmem hnot]
        exact ⟨hended, hpipe⟩
      · exact h.passed c' hc' hmem

/-- The invariant holds in every state of a run. -/
theorem inv_of_reach (h : Reach (step cap) Any (init output readers) s) : Inv cap output readers s :=
  h.invariant (Inv cap output readers) inv_init fun _ _ _ hinv _ hs => hinv.after hs

/-! ## Runs come to an end -/

/-- In a state with something left to do, a step is possible unless the process waits for room in a pipe that nobody reads yet. -/
theorem Inv.progress (hcap : 0 < cap) (h : Inv cap output readers s) (hfit : ∀ c ∉ heads readers, (sent output c).length ≤ cap)
    (hnot : ¬s.Done) : ∃ a s', step cap s a = some s' := by
  by_cases hrunning : s.running = true
  · cases htodo : s.todo with
    | nil => exact ⟨.exit, { s with running := false }, by simp [step, htodo, hrunning]⟩
    | cons w rest =>
      obtain ⟨c, b⟩ := w
      by_cases hroom : (s.pipe c).length < cap
      · exact ⟨.write, _, by simp only [step, htodo]; exact if_pos hroom⟩
      · have hmem : c ∈ heads readers := by
          by_contra hc
          have hlen := congrArg List.length (h.kept c)
          rw [h.unread hrunning c hc, htodo, sent_cons_self] at hlen
          simp only [List.nil_append, List.length_append, List.length_cons] at hlen
          have := hfit c hc
          omega
        obtain ⟨r, hr, hhead⟩ := List.mem_filterMap.1 hmem
        obtain ⟨i, hi⟩ := List.mem_iff_getElem?.1 hr
        obtain ⟨rest', rfl⟩ := List.head?_eq_some_iff.1 hhead
        cases hpipe : s.pipe c with
        | nil =>
          rw [hpipe] at hroom
          exact absurd hcap hroom
        | cons b' bs => exact ⟨.read i, _, by simp only [step, h.waiting hrunning, hi, hpipe]; rfl⟩
  · have hended := Bool.eq_false_iff.2 hrunning
    obtain ⟨r, hr, hne⟩ : ∃ r ∈ s.readers, r ≠ [] := by
      by_contra hall
      exact hnot ⟨hended, fun r hr => by_contra fun hne => hall ⟨r, hr, hne⟩⟩
    obtain ⟨i, hi⟩ := List.mem_iff_getElem?.1 hr
    obtain ⟨c, rest, rfl⟩ := List.exists_cons_of_ne_nil hne
    cases hpipe : s.pipe c with
    | nil => exact ⟨.read i, { s with readers := s.readers.set i rest }, by simp [step, hi, hpipe, hended]⟩
    | cons b bs => exact ⟨.read i, _, by simp only [step, hi, hpipe]; rfl⟩

/-- What is left to do: a byte is written and then read, the process ends, and a reader comes to the end of each of its pipes. -/
def State.left [Fintype C] (s : State C β) : Nat :=
  2 * s.todo.length + ∑ c, (s.pipe c).length + s.running.toNat + s.readers.flatten.length

/-- The bytes in all pipes, after one of them has changed. -/
theorem sum_update [Fintype C] (f : C → List β) (c : C) (l : List β) :
    ∑ c', (Function.update f c l c').length + (f c).length = ∑ c', (f c').length + l.length := by
  have hsplit : ∀ g : C → List β, ∑ c', (g c').length = (g c).length + ∑ c' ∈ Finset.univ.erase c, (g c').length :=
    fun g => (Finset.add_sum_erase Finset.univ (fun c' => (g c').length) (Finset.mem_univ c)).symm
  have hrest : ∑ c' ∈ Finset.univ.erase c, (Function.update f c l c').length = ∑ c' ∈ Finset.univ.erase c, (f c').length :=
    Finset.sum_congr rfl fun c' hc' => by rw [Function.update_of_ne (Finset.ne_of_mem_erase hc')]
  rw [hsplit f, hsplit (Function.update f c l), hrest, Function.update_self]
  omega

omit [DecidableEq C] in
/-- The pipes that the readers have left, after one has come to the end of its first one. -/
theorem length_flatten_set {rs : List (List C)} {i : Nat} {rest : List C} (h : rs[i]? = some (c :: rest)) :
    (rs.set i rest).flatten.length + 1 = rs.flatten.length := by
  induction rs generalizing i with
  | nil => cases h
  | cons r rs ih =>
    cases i with
    | zero =>
      cases h
      simp only [List.set_cons_zero, List.flatten_cons, List.length_append, List.length_cons]
      omega
    | succ i =>
      have hlength := ih h
      simp only [List.set_cons_succ, List.flatten_cons, List.length_append]
      omega

theorem left_lt [Fintype C] {a : Act} (hs : step cap s a = some s') : s'.left < s.left := by
  obtain ⟨c, b, rest, htodo, -, rfl⟩ | ⟨-, hrunning, rfl⟩ | ⟨i, c, rest, hreader, ⟨b, bs, hpipe, rfl⟩ | ⟨-, -, rfl⟩⟩ := step_cases hs
  · have hsum := sum_update s.pipe c (s.pipe c ++ [b])
    simp only [State.left, htodo, List.length_cons, List.length_append, List.length_nil] at hsum ⊢
    omega
  · simp only [State.left, hrunning, Bool.toNat_false, Bool.toNat_true]
    omega
  · have hsum := sum_update s.pipe c bs
    rw [hpipe, List.length_cons] at hsum
    simp only [State.left]
    omega
  · have hlength := length_flatten_set hreader
    simp only [State.left]
    omega

/-! ## The results -/

/-- If everything that nobody reads at first fits into its pipe, every run ends, and every pipe that has a reader has been read
to its end. -/
theorem inevitable_done [Fintype C] (hcap : 0 < cap) (hfit : ∀ c ∉ heads readers, (sent output c).length ≤ cap) :
    Inevitable (step cap) (fun s => s.Done ∧ ∀ c ∈ readers.flatten, s.got c = sent output c) (init output readers) := by
  refine (Inevitable.of_measure (Inv cap output readers) State.left (fun s hinv hnot => hinv.progress hcap hfit hnot)
    (fun _ _ _ hinv hs => hinv.after hs) (fun _ _ _ _ hs => left_lt hs) inv_init).strengthen fun s hreach hdone => ?_
  refine ⟨hdone, fun c hc => ?_⟩
  have hinv := inv_of_reach hreach
  have hread : c ∉ s.readers.flatten := fun hmem => by
    obtain ⟨r, hr, hcr⟩ := List.mem_flatten.1 hmem
    rw [hdone.2 r hr] at hcr
    cases hcr
  rw [← hinv.kept c, (hinv.passed c hc hread).2, hinv.ended hdone.1]
  simp [sent_nil]

/-- If something that nobody reads at first does not fit into its pipe, the process never ends. -/
theorem running_of_reach (hc : c ∉ heads readers) (hlong : cap < (sent output c).length)
    (h : Reach (step cap) Any (init output readers) s) : s.running = true := by
  suffices H : Inv cap output readers s ∧ s.running = true from H.2
  refine h.invariant (fun s => Inv cap output readers s ∧ s.running = true) ⟨inv_init, rfl⟩ fun s a s' hs _ hstep => ?_
  obtain ⟨hinv, hrunning⟩ := hs
  refine ⟨hinv.after hstep, ?_⟩
  obtain ⟨_, _, _, -, -, rfl⟩ | ⟨htodo, -, rfl⟩ | ⟨_, _, _, -, ⟨_, _, -, rfl⟩ | ⟨-, -, rfl⟩⟩ := step_cases hstep
  · exact hrunning
  · have hkept := hinv.kept c
    rw [hinv.unread hrunning c hc, htodo, sent_nil, List.append_nil, List.nil_append] at hkept
    have hbounded := hinv.bounded c
    rw [hkept] at hbounded
    omega
  · exact hrunning
  · exact hrunning

/-- Then every run gets stuck with the process waiting. -/
theorem inevitable_stuck [Fintype C] (hc : c ∉ heads readers) (hlong : cap < (sent output c).length) :
    Inevitable (step cap) (fun s => s.running = true ∧ ∀ a, step cap s a = none) (init output readers) := by
  have hstuck : Inevitable (step cap) (fun s => ∀ a, step cap s a = none) (init output readers) := by
    refine Inevitable.of_measure (Inv cap output readers) State.left (fun s _ hnot => ?_) (fun _ _ _ hinv hs => hinv.after hs)
      (fun _ _ _ _ hs => left_lt hs) inv_init
    obtain ⟨a, ha⟩ := not_forall.1 hnot
    obtain ⟨s', hs'⟩ := Option.ne_none_iff_exists'.1 ha
    exact ⟨a, s', hs'⟩
  exact hstuck.strengthen fun s hreach hnone => ⟨running_of_reach hc hlong hreach, hnone⟩

/-- A process that always ends is one whose output fits, where nobody reads it at first. -/
theorem fits_of_inevitable_done (h : Inevitable (step cap) State.Done (init output readers)) (hc : c ∉ heads readers) :
    (sent output c).length ≤ cap := by
  by_contra hlong
  obtain ⟨s, hreach, hdone⟩ := h.exists_reach
  have hrunning := running_of_reach hc (Nat.lt_of_not_le hlong) hreach
  rw [hdone.1] at hrunning
  cases hrunning

end Pipes
