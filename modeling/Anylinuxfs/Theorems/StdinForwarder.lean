import Anylinuxfs.Lemmas.LineReader
import Anylinuxfs.Lib.Eventually
import Anylinuxfs.StdinForwarder
import Mathlib.Data.List.TakeWhile

/-!
# What comes to the VM from the standard input

Whatever the threads do and when, the VM gets the lines of the input in their order and none of them twice; if nobody stops the
forwarding it gets all of them and a `^D`, and after a request to stop at most what is left of one line.
-/

namespace Anylinuxfs

open Transition (Inevitable Reach Any)

namespace StdinForwarder

variable {reads : List ReadLine} {s s' : State}

/-! ## Messages -/

/-- What the reading thread has still to send. -/
def State.pending (s : State) : List (Option Bytes) := if s.reading then messages s.reads else []

/-- What `run_pipe_forwarding` has still to receive. -/
def State.toCome (s : State) : List (Option Bytes) := s.queue ++ s.pending

/-- Everything that is to be written. -/
def total (reads : List ReadLine) : Bytes := (messages reads).flatMap messageBytes

/-- The end is the last message, and there is only one. -/
theorem messages_eq (reads : List ReadLine) : ∃ lines : List Bytes, messages reads = lines.map some ++ [none] := by
  induction reads with
  | nil => exact ⟨[], rfl⟩
  | cons r rest ih =>
    cases r with
    | failed => exact ⟨[], rfl⟩
    | line data =>
      obtain ⟨lines, hlines⟩ := ih
      exact ⟨data :: lines, by rw [messages, hlines, List.map_cons, List.cons_append]⟩

theorem none_mem_messages (reads : List ReadLine) : none ∈ messages reads := by
  obtain ⟨lines, h⟩ := messages_eq reads
  simp [h]

/-- Nothing comes after the end. -/
theorem eq_nil_of_messages {before : List Bytes} {rest : List (Option Bytes)} (h : messages reads = before.map some ++ none :: rest) :
    rest = [] := by
  have hend : ∀ before : List Bytes, [none] = before.map some ++ none :: rest → rest = [] := by
    intro before h
    cases before with
    | nil => simpa using h
    | cons b before => simp at h
  induction reads generalizing before with
  | nil => exact hend before h
  | cons r reads ih =>
    cases r with
    | failed => exact hend before h
    | line data =>
      cases before with
      | nil => simp [messages] at h
      | cons b before => exact ih (List.cons.inj h).2

theorem flatMap_messageBytes (lines : List Bytes) : (lines.map some).flatMap messageBytes = lines.flatten := by
  induction lines with
  | nil => rfl
  | cons line lines ih => rw [List.map_cons, List.flatMap_cons, ih, List.flatten_cons]; rfl

/-! ## Steps -/

/-- The reading thread sends the next message, unless nobody receives any more. -/
theorem readStep_cases (h : readStep s = some s') :
    (∃ ok rest, s.forwarder = .ended ok ∧ s.pending ≠ [] ∧ s' = { s with reads := rest, reading := false }) ∨
    (∃ message reads' reading', s' = { s with reads := reads', reading := reading', queue := s.queue ++ [message] } ∧
      s.pending = message :: s'.pending) := by
  unfold readStep at h
  split at h
  · cases h
  · next hreading =>
    have hreading : s.reading = true := by simpa using hreading
    split at h
    · next hreads hforwarder =>
      cases h
      exact .inl ⟨_, _, hforwarder, by simp [State.pending, hreading, hreads, messages], rfl⟩
    · next hreads _ =>
      cases h
      exact .inr ⟨_, _, _, rfl, by simp [State.pending, hreading, hreads, messages]⟩
    · next hline _ =>
      cases h
      refine .inr ⟨none, _, _, rfl, ?_⟩
      cases hreads : s.reads with
      | nil => simp [State.pending, hreading, hreads, messages]
      | cons r rest =>
        cases r with
        | failed => simp [State.pending, hreading, hreads, messages]
        | line data => exact absurd hreads (hline data rest)

/-- What is still to be received stays the same, as long as somebody receives it. -/
theorem toCome_readStep (h : readStep s = some s') :
    (∃ reads' reading' queue', s' = { s with reads := reads', reading := reading', queue := queue' }) ∧
      (s'.toCome = s.toCome ∨ ∃ ok, s.forwarder = .ended ok) := by
  rcases readStep_cases h with ⟨ok, rest, hpc, -, rfl⟩ | ⟨message, reads', reading', rfl, hpending⟩
  · exact ⟨⟨_, _, _, rfl⟩, .inr ⟨ok, hpc⟩⟩
  · refine ⟨⟨_, _, _, rfl⟩, .inl ?_⟩
    simp only [State.toCome, hpending, List.append_assoc, List.singleton_append]

theorem forwardStep_cases (h : forwardStep s = some s') :
    (s.forwarder = .poll ∧ s' = { s with forwarder := if s.closeSent then .ended true else .receive }) ∨
    (∃ message rest, s.forwarder = .receive ∧ s.queue = message :: rest ∧
      s' = { s with queue := rest, forwarder := .write (messageBytes message) message.isNone }) ∨
    (s.forwarder = .receive ∧ s.queue = [] ∧ s.reading = false ∧ s' = { s with forwarder := .ended true }) ∨
    (s.forwarder = .receive ∧ s.closeSent = true ∧ s' = { s with forwarder := .poll }) ∨
    (∃ b left last, s.forwarder = .write (b :: left) last ∧
      s' = { s with vmInput := s.vmInput ++ [(.stdin, b)], forwarder := .write left last }) ∨
    (∃ last, s.forwarder = .write [] last ∧ s' = { s with forwarder := if last then .ended true else .poll }) := by
  unfold forwardStep at h
  split at h
  · next hpc =>
    cases h
    exact .inl ⟨hpc, rfl⟩
  · next hpc =>
    split at h
    · next hqueue =>
      cases h
      exact .inr (.inl ⟨_, _, hpc, hqueue, rfl⟩)
    · next hqueue =>
      split at h
      · next hreading =>
        cases h
        exact .inr (.inr (.inl ⟨hpc, hqueue, hreading, rfl⟩))
      · split at h
        · next hclose =>
          cases h
          exact .inr (.inr (.inr (.inl ⟨hpc, hclose, rfl⟩)))
        · cases h
  · next hpc =>
    cases h
    exact .inr (.inr (.inr (.inr (.inl ⟨_, _, _, hpc, rfl⟩))))
  · next hpc =>
    cases h
    exact .inr (.inr (.inr (.inr (.inr ⟨_, hpc, rfl⟩))))
  · cases h

theorem step_cases {a : Act} (h : step s a = some s') :
    (a = .read ∧ readStep s = some s') ∨
    (a = .forward ∧ forwardStep s = some s') ∨
    (a = .writeFails ∧ s' = { s with forwarder := .ended false }) ∨
    (a = .signal ∧ s.signalled = false ∧ s' = { s with signalled := true, vmInput := s.vmInput ++ [(.signal, interrupt)] }) ∨
    (a = .stop ∧ s.closeSent = false ∧ s' = { s with closeSent := true }) ∨
    (a = .signalFails ∧ s.signalled = false ∧ s' = { s with signalled := true }) := by
  cases a with
  | read => exact .inl ⟨rfl, h⟩
  | forward => exact .inr (.inl ⟨rfl, h⟩)
  | writeFails =>
    simp only [step] at h
    split at h
    · cases h
      exact .inr (.inr (.inl ⟨rfl, rfl⟩))
    · cases h
  | signal =>
    simp only [step] at h
    split at h
    · cases h
    · next hnone =>
      cases h
      exact .inr (.inr (.inr (.inl ⟨rfl, Bool.eq_false_iff.2 hnone, rfl⟩)))
  | stop =>
    simp only [step] at h
    split at h
    · cases h
    · next hnone =>
      cases h
      exact .inr (.inr (.inr (.inr (.inl ⟨rfl, Bool.eq_false_iff.2 hnone, rfl⟩))))
  | signalFails =>
    simp only [step] at h
    split at h
    · cases h
    · next hnone =>
      cases h
      exact .inr (.inr (.inr (.inr (.inr ⟨rfl, Bool.eq_false_iff.2 hnone, rfl⟩))))

@[simp] theorem forwarded_stdin (s : State) (b : UInt8) (pc : Forwarder) :
    { s with vmInput := s.vmInput ++ [(Source.stdin, b)], forwarder := pc }.forwarded = s.forwarded ++ [b] := by
  simp [State.forwarded]

@[simp] theorem forwarded_signal (s : State) (b : UInt8) (d : Bool) :
    { s with signalled := d, vmInput := s.vmInput ++ [(Source.signal, b)] }.forwarded = s.forwarded := by
  simp [State.forwarded]

/-! ## In every run -/

/-- What has been written, by where `run_pipe_forwarding` is. -/
def Stage (reads : List ReadLine) (s : State) : Prop :=
  match s.forwarder with
  | .poll | .receive => ∃ before : List Bytes, messages reads = before.map some ++ s.toCome ∧ s.forwarded = before.flatten
  | .write left last => ∃ (before : List Bytes) (message : Option Bytes) (written : Bytes),
      messages reads = before.map some ++ message :: s.toCome ∧ messageBytes message = written ++ left ∧
      s.forwarded = before.flatten ++ written ∧ last = message.isNone
  | .ended ok => s.forwarded <+: total reads ∧ (ok = true → s.closeSent = false → s.forwarded = total reads)

theorem total_of_messages {before : List Bytes} {rest : List (Option Bytes)} (h : messages reads = before.map some ++ rest) :
    total reads = before.flatten ++ rest.flatMap messageBytes := by
  rw [total, h, List.flatMap_append, flatMap_messageBytes]

theorem Stage.forwarded (h : Stage reads s) : s.forwarded <+: total reads := by
  unfold Stage at h
  split at h
  · obtain ⟨before, hmessages, hforwarded⟩ := h
    rw [hforwarded, total_of_messages hmessages]
    exact List.prefix_append _ _
  · obtain ⟨before, hmessages, hforwarded⟩ := h
    rw [hforwarded, total_of_messages hmessages]
    exact List.prefix_append _ _
  · obtain ⟨before, message, written, hmessages, hwritten, hforwarded, -⟩ := h
    rw [total_of_messages hmessages, List.flatMap_cons, hwritten, hforwarded, List.append_assoc, ← List.append_assoc]
    exact List.prefix_append _ _
  · exact h.1

/-- Only where `run_pipe_forwarding` is, what it has still to receive and what it has written count. -/
theorem Stage.congr (h : Stage reads s) (hpc : s'.forwarder = s.forwarder) (hcome : s'.toCome = s.toCome ∨ ∃ ok, s.forwarder = .ended ok)
    (hforwarded : s'.forwarded = s.forwarded) (hclose : s'.closeSent = false → s.closeSent = false) : Stage reads s' := by
  unfold Stage at h ⊢
  rw [hpc, hforwarded]
  cases hs : s.forwarder with
  | ended ok =>
    rw [hs] at h
    exact ⟨h.1, fun hok hc => h.2 hok (hclose hc)⟩
  | poll =>
    rw [hs] at h hcome
    rw [hcome.resolve_right (by simp)]
    exact h
  | receive =>
    rw [hs] at h hcome
    rw [hcome.resolve_right (by simp)]
    exact h
  | write left last =>
    rw [hs] at h hcome
    rw [hcome.resolve_right (by simp)]
    exact h

theorem Stage.forward (h : Stage reads s) (hs : forwardStep s = some s') : Stage reads s' := by
  rcases forwardStep_cases hs with ⟨hpc, rfl⟩ | ⟨message, rest, hpc, hqueue, rfl⟩ | ⟨hpc, hqueue, hreading, rfl⟩ | ⟨hpc, -, rfl⟩ |
    ⟨b, left, last, hpc, rfl⟩ | ⟨last, hpc, rfl⟩
  · have hpre := h.forwarded
    unfold Stage at h ⊢
    rw [hpc] at h
    cases hclose : s.closeSent with
    | true => exact ⟨hpre, fun _ hc => by cases hc⟩
    | false => exact h
  · unfold Stage at h ⊢
    rw [hpc] at h
    obtain ⟨before, hmessages, hforwarded⟩ := h
    refine ⟨before, message, [], ?_, rfl, ?_, rfl⟩
    · rw [hmessages, State.toCome, hqueue, List.cons_append]
      rfl
    · rw [List.append_nil]
      exact hforwarded
  · unfold Stage at h
    rw [hpc] at h
    obtain ⟨before, hmessages, -⟩ := h
    have hend := none_mem_messages reads
    rw [hmessages, State.toCome, hqueue, State.pending, hreading] at hend
    simp at hend
  · unfold Stage at h ⊢
    rw [hpc] at h
    exact h
  · unfold Stage at h ⊢
    rw [hpc] at h
    obtain ⟨before, message, written, hmessages, hwritten, hforwarded, hlast⟩ := h
    refine ⟨before, message, written ++ [b], hmessages, ?_, ?_, hlast⟩
    · rw [hwritten, List.append_assoc, List.singleton_append]
    · rw [forwarded_stdin, hforwarded, List.append_assoc]
  · unfold Stage at h ⊢
    rw [hpc] at h
    obtain ⟨before, message, written, hmessages, hwritten, hforwarded, rfl⟩ := h
    rw [List.append_nil] at hwritten
    rw [← hwritten] at hforwarded
    cases message with
    | some line =>
      refine ⟨before ++ [line], ?_, ?_⟩
      · rw [hmessages, List.map_append, List.append_assoc]
        rfl
      · rw [List.flatten_append, List.flatten_singleton]
        exact hforwarded
    | none =>
      have hnil := eq_nil_of_messages hmessages
      have htotal : s.forwarded = total reads := by
        rw [hforwarded, total_of_messages hmessages, hnil, List.flatMap_singleton]
      exact ⟨htotal ▸ List.prefix_refl _, fun _ _ => htotal⟩

theorem Stage.step {a : Act} (h : Stage reads s) (hs : step s a = some s') : Stage reads s' := by
  rcases step_cases hs with ⟨-, hs⟩ | ⟨-, hs⟩ | ⟨-, rfl⟩ | ⟨-, -, rfl⟩ | ⟨-, hclose, rfl⟩ | ⟨-, -, rfl⟩
  · obtain ⟨⟨_, _, _, rfl⟩, hcome⟩ := toCome_readStep hs
    exact h.congr rfl hcome rfl id
  · exact h.forward hs
  · exact ⟨h.forwarded, fun hok => by cases hok⟩
  · exact h.congr rfl (.inl rfl) (forwarded_signal s interrupt true) id
  · exact h.congr rfl (.inl rfl) rfl fun _ => hclose
  · exact h.congr rfl (.inl rfl) rfl id

theorem stage_init : Stage reads (init reads) := ⟨[], rfl, rfl⟩

theorem stage_of_reach (h : Reach step Any (init reads) s) : Stage reads s :=
  h.invariant (Stage reads) stage_init fun _ _ _ hstage _ hs => hstage.step hs

/-! ## A request to stop -/

/-- What may still be written after a request to stop. -/
def State.allowance (s : State) : Bytes :=
  match s.forwarder with
  | .poll | .ended _ => []
  | .write left _ => left
  | .receive => (s.toCome.head?.map messageBytes).getD []

/-- The steps of the others let nothing more be written. -/
theorem allowance_congr (hpc : s'.forwarder = s.forwarder) (hcome : s'.toCome = s.toCome ∨ ∃ ok, s.forwarder = .ended ok) :
    s'.allowance = s.allowance := by
  unfold State.allowance
  rw [hpc]
  cases hs : s.forwarder with
  | ended ok => rfl
  | poll => rfl
  | write left last => rfl
  | receive =>
    rw [hs] at hcome
    rw [hcome.resolve_right (by simp)]

/-- What a step writes is taken from what may still be written. -/
theorem allowance_step {a : Act} (hclose : s.closeSent = true) (hs : step s a = some s') :
    s'.closeSent = true ∧ ∃ part, s'.forwarded = s.forwarded ++ part ∧ part ++ s'.allowance <+: s.allowance := by
  have hsame : s'.forwarder = s.forwarder → (s'.toCome = s.toCome ∨ ∃ ok, s.forwarder = .ended ok) → s'.forwarded = s.forwarded →
      ∃ part, s'.forwarded = s.forwarded ++ part ∧ part ++ s'.allowance <+: s.allowance := by
    intro hpc hcome hforwarded
    refine ⟨[], by rw [hforwarded, List.append_nil], ?_⟩
    simpa only [List.nil_append, allowance_congr hpc hcome] using List.prefix_refl s.allowance
  rcases step_cases hs with ⟨-, hs⟩ | ⟨-, hs⟩ | ⟨-, rfl⟩ | ⟨-, -, rfl⟩ | ⟨-, hopen, rfl⟩ | ⟨-, -, rfl⟩
  · obtain ⟨⟨_, _, _, rfl⟩, hcome⟩ := toCome_readStep hs
    exact ⟨hclose, hsame rfl hcome rfl⟩
  · rcases forwardStep_cases hs with ⟨hpc, rfl⟩ | ⟨message, rest, hpc, hqueue, rfl⟩ | ⟨hpc, hqueue, hreading, rfl⟩ | ⟨hpc, -, rfl⟩ |
      ⟨b, left, last, hpc, rfl⟩ | ⟨last, hpc, rfl⟩
    · refine ⟨hclose, [], (List.append_nil _).symm, ?_⟩
      simp [State.allowance, hpc, hclose]
    · refine ⟨hclose, [], (List.append_nil _).symm, ?_⟩
      simp [State.allowance, State.toCome, hpc, hqueue]
    · exact ⟨hclose, [], (List.append_nil _).symm, List.nil_prefix⟩
    · exact ⟨hclose, [], (List.append_nil _).symm, List.nil_prefix⟩
    · refine ⟨hclose, [b], forwarded_stdin s b _, ?_⟩
      simp [State.allowance, hpc]
    · refine ⟨hclose, [], (List.append_nil _).symm, ?_⟩
      cases last <;> simp [State.allowance, hpc]
  · exact ⟨hclose, [], (List.append_nil _).symm, List.nil_prefix⟩
  · exact ⟨hclose, hsame rfl (.inl rfl) (forwarded_signal s interrupt true)⟩
  · rw [hclose] at hopen
    cases hopen
  · exact ⟨hclose, hsame rfl (.inl rfl) rfl⟩

/-- What may still be written is the end of one message. -/
theorem Stage.allowance (h : Stage reads s) : ∃ message ∈ messages reads, s.allowance <:+: messageBytes message := by
  unfold Stage at h
  unfold State.allowance
  cases hs : s.forwarder with
  | poll => exact ⟨none, none_mem_messages reads, List.nil_infix⟩
  | ended ok => exact ⟨none, none_mem_messages reads, List.nil_infix⟩
  | receive =>
    rw [hs] at h
    obtain ⟨before, hmessages, -⟩ := h
    cases hcome : s.toCome with
    | nil => exact ⟨none, none_mem_messages reads, List.nil_infix⟩
    | cons message rest => exact ⟨message, by rw [hmessages, hcome]; simp, List.infix_refl _⟩
  | write left last =>
    rw [hs] at h
    obtain ⟨before, message, written, hmessages, hwritten, -⟩ := h
    exact ⟨message, by rw [hmessages]; simp, hwritten ▸ List.suffix_append _ _ |>.isInfix⟩

/-- After a request to stop, at whatever moment of whatever run, at most a part of one line comes to the VM from the input. -/
theorem forwarded_after_stop (h : Reach step Any (init reads) s) (hclose : s.closeSent = true) (h' : Reach step Any s s') :
    ∃ message ∈ messages reads, ∃ part, s'.forwarded = s.forwarded ++ part ∧ part <:+: messageBytes message := by
  have hpart : s'.closeSent = true ∧ ∃ part, s'.forwarded = s.forwarded ++ part ∧ part ++ s'.allowance <+: s.allowance := by
    refine h'.invariant
      (fun s' => s'.closeSent = true ∧ ∃ part, s'.forwarded = s.forwarded ++ part ∧ part ++ s'.allowance <+: s.allowance)
      ⟨hclose, [], (List.append_nil _).symm, List.prefix_refl _⟩ fun s₁ a s₂ hs₁ _ hs => ?_
    obtain ⟨hclose₁, part, hforwarded, hpre⟩ := hs₁
    obtain ⟨hclose₂, more, hmore, hpre'⟩ := allowance_step hclose₁ hs
    refine ⟨hclose₂, part ++ more, by rw [hmore, hforwarded, List.append_assoc], ?_⟩
    rw [List.append_assoc]
    exact (List.prefix_append_right_inj part).2 hpre' |>.trans hpre
  obtain ⟨-, part, hforwarded, hpre⟩ := hpart
  obtain ⟨message, hmessage, hinfix⟩ := (stage_of_reach h).allowance
  have hpart : part <+: s.allowance := (List.prefix_append part s'.allowance).trans hpre
  exact ⟨message, hmessage, part, hforwarded, hpart.isInfix.trans hinfix⟩

/-- A request to stop that comes when the first line is waited for. -/
theorem forwarded_after_stop_receiving :
    ∃ message ∈ messages [.line [97, newline]], ∃ part, [97] = [] ++ part ∧ part <:+: messageBytes message :=
  have h : Reach step Any (init [.line [97, newline]]) { reads := [], queue := [some [97, newline]], forwarder := .receive, closeSent := true } :=
    ((Reach.init.step .read trivial rfl).step .forward trivial rfl).step .stop trivial rfl
  have h' : Reach step Any _ { reads := [], forwarder := .write [newline] false, closeSent := true, vmInput := [(.stdin, 97)] } :=
    (Reach.init.step .forward trivial rfl).step .forward trivial rfl
  forwarded_after_stop h rfl h'

/-- Whatever happens and in whatever order, what comes from the input is the beginning of it, and signals give one `^C` at most, and
none before the first of them. -/
theorem forwarded_of_reach (h : Reach step Any (init reads) s) :
    s.forwarded <+: total reads ∧ s.interrupts <+: if s.signalled then [interrupt] else [] := by
  refine ⟨(stage_of_reach h).forwarded, ?_⟩
  refine h.invariant (fun s => s.interrupts <+: if s.signalled then [interrupt] else []) (List.prefix_refl _) fun s a s' hs _ hstep => ?_
  rcases step_cases hstep with ⟨-, hstep⟩ | ⟨-, hstep⟩ | ⟨-, rfl⟩ | ⟨-, hnone, rfl⟩ | ⟨-, -, rfl⟩ | ⟨-, hnone, rfl⟩
  · obtain ⟨⟨_, _, _, rfl⟩, -⟩ := toCome_readStep hstep
    exact hs
  · rcases forwardStep_cases hstep with ⟨-, rfl⟩ | ⟨_, _, -, -, rfl⟩ | ⟨-, -, -, rfl⟩ | ⟨-, -, rfl⟩ | ⟨b, left, last, -, rfl⟩ |
      ⟨_, -, rfl⟩
    · exact hs
    · exact hs
    · exact hs
    · exact hs
    · simpa [State.interrupts] using hs
    · exact hs
  · exact hs
  · rw [hnone] at hs
    have hnothing : s.interrupts = [] := List.prefix_nil.1 hs
    have hone : { s with signalled := true, vmInput := s.vmInput ++ [(Source.signal, interrupt)] }.interrupts =
        s.interrupts ++ [interrupt] := by simp [State.interrupts]
    rw [hone, hnothing]
    exact List.prefix_refl _
  · exact hs
  · rw [hnone] at hs
    exact (List.prefix_nil.1 hs : s.interrupts = []) ▸ List.nil_prefix

/-- A signal that comes while a line is written. -/
theorem forwarded_of_reach_signal :
    [97] <+: total [.line [97, newline]] ∧ ([(Source.stdin, 97), (.signal, interrupt)].filter (·.1 = .signal)).map (·.2) <+: [interrupt] :=
  have h : Reach step Any (init [.line [97, newline]])
      { reads := [], forwarder := .write [newline] false, signalled := true, vmInput := [(.stdin, 97), (.signal, interrupt)] } :=
    ((((Reach.init.step .read trivial rfl).step .forward trivial rfl).step .forward trivial rfl).step .forward trivial rfl).step
      .signal trivial rfl
  forwarded_of_reach h

/-! ## An input that nobody stops -/

/-- What is left to do where `run_pipe_forwarding` is. -/
def Forwarder.cost : Forwarder → Nat
  | .poll => 2
  | .receive => 1
  | .write left _ => left.length + 3
  | .ended _ => 0

/-- What is left to do: a message is sent, received, written byte by byte, and then there is a look for a request to stop. -/
def State.left (s : State) : Nat :=
  s.forwarder.cost + (s.toCome.flatMap messageBytes).length + 3 * s.queue.length + 4 * s.pending.length + (!s.signalled).toNat

theorem left_lt {a : Act} (hopen : s.closeSent = false) (hs : undisturbed s a = some s') : s'.left < s.left := by
  unfold undisturbed at hs
  split at hs
  · cases hs
  next hact =>
  rcases step_cases hs with ⟨-, hs⟩ | ⟨-, hs⟩ | ⟨ha, -⟩ | ⟨-, hnone, rfl⟩ | ⟨ha, -⟩ | ⟨-, hnone, rfl⟩
  · rcases readStep_cases hs with ⟨ok, rest, -, hne, rfl⟩ | ⟨message, reads', reading', rfl, hpending⟩
    · have hpos := List.length_pos_iff.2 hne
      simp only [State.left, State.toCome, State.pending, List.flatMap_append, List.length_append] at hpos ⊢
      simp
      omega
    · simp only [State.left, State.toCome, hpending, List.append_assoc, List.singleton_append, List.length_append, List.length_cons,
        List.length_nil]
      omega
  · rcases forwardStep_cases hs with ⟨hpc, rfl⟩ | ⟨message, rest, hpc, hqueue, rfl⟩ | ⟨hpc, hqueue, hreading, rfl⟩ | ⟨-, hclose, -⟩ |
      ⟨b, left, last, hpc, rfl⟩ | ⟨last, hpc, rfl⟩
    · simp only [State.left, State.toCome, State.pending, hpc, hopen, Bool.false_eq_true, if_false, Forwarder.cost]
      omega
    · simp only [State.left, State.toCome, State.pending, hpc, hqueue, Forwarder.cost, List.cons_append, List.flatMap_cons,
        List.length_append, List.length_cons]
      omega
    · simp only [State.left, State.toCome, State.pending, hpc, Forwarder.cost]
      omega
    · rw [hopen] at hclose
      cases hclose
    · simp only [State.left, State.toCome, State.pending, hpc, Forwarder.cost, List.length_cons]
      omega
    · cases last <;> simp [State.left, State.toCome, State.pending, hpc, Forwarder.cost]
  · exact absurd (.inl ha) hact
  · simp only [State.left, State.toCome, State.pending, hnone, Bool.not_true, Bool.not_false, Bool.toNat_false, Bool.toNat_true]
    omega
  · exact absurd (.inr ha) hact
  · simp only [State.left, State.toCome, State.pending, hnone, Bool.not_true, Bool.not_false, Bool.toNat_false, Bool.toNat_true]
    omega

/-- Nobody has stopped the forwarding, and no write has failed. -/
structure Undisturbed (reads : List ReadLine) (s : State) : Prop where
  stage : Stage reads s
  notStopped : s.closeSent = false
  noFailure : s.forwarder ≠ .ended false

theorem Undisturbed.after {a : Act} (h : Undisturbed reads s) (hs : undisturbed s a = some s') : Undisturbed reads s' := by
  unfold undisturbed at hs
  split at hs
  · cases hs
  next hact =>
  refine ⟨h.stage.step hs, ?_, ?_⟩
  · rcases step_cases hs with ⟨-, hs⟩ | ⟨-, hs⟩ | ⟨ha, -⟩ | ⟨-, -, rfl⟩ | ⟨ha, -⟩ | ⟨-, -, rfl⟩
    · obtain ⟨⟨_, _, _, rfl⟩, -⟩ := toCome_readStep hs
      exact h.notStopped
    · rcases forwardStep_cases hs with ⟨-, rfl⟩ | ⟨_, _, -, -, rfl⟩ | ⟨-, -, -, rfl⟩ | ⟨-, -, rfl⟩ | ⟨_, _, _, -, rfl⟩ | ⟨_, -, rfl⟩
      all_goals exact h.notStopped
    · exact absurd (.inl ha) hact
    · exact h.notStopped
    · exact absurd (.inr ha) hact
    · exact h.notStopped
  · rcases step_cases hs with ⟨-, hs⟩ | ⟨-, hs⟩ | ⟨ha, -⟩ | ⟨-, -, rfl⟩ | ⟨ha, -⟩ | ⟨-, -, rfl⟩
    · obtain ⟨⟨_, _, _, rfl⟩, -⟩ := toCome_readStep hs
      exact h.noFailure
    · rcases forwardStep_cases hs with ⟨-, rfl⟩ | ⟨_, _, -, -, rfl⟩ | ⟨-, -, -, rfl⟩ | ⟨-, -, rfl⟩ | ⟨_, _, _, -, rfl⟩ | ⟨last, -, rfl⟩
      · simp [h.notStopped]
      · simp
      · simp
      · simp
      · simp
      · cases last <;> simp
    · exact absurd (.inl ha) hact
    · exact h.noFailure
    · exact absurd (.inr ha) hact
    · exact h.noFailure

/-- Somebody can do something until `run_pipe_forwarding` has ended. -/
theorem exists_undisturbed (hrunning : ∀ ok, s.forwarder ≠ .ended ok) : ∃ a s', undisturbed s a = some s' := by
  have hforward : (∃ s', forwardStep s = some s') → ∃ a s', undisturbed s a = some s' := fun h => ⟨.forward, h⟩
  cases hpc : s.forwarder with
  | poll => exact hforward ⟨_, by simp only [forwardStep, hpc]; rfl⟩
  | ended ok => exact absurd hpc (hrunning ok)
  | write left last =>
    cases left with
    | nil => exact hforward ⟨_, by simp only [forwardStep, hpc]; rfl⟩
    | cons b left => exact hforward ⟨_, by simp only [forwardStep, hpc]; rfl⟩
  | receive =>
    cases hqueue : s.queue with
    | cons message rest => exact hforward ⟨_, by simp only [forwardStep, hpc, hqueue]; rfl⟩
    | nil =>
      cases hreading : s.reading with
      | false => exact hforward ⟨_, by simp only [forwardStep, hpc, hqueue, hreading, if_true]; rfl⟩
      | true =>
        obtain ⟨s', hs⟩ : ∃ s', readStep s = some s' := by
          unfold readStep
          rw [hreading, if_neg Bool.noConfusion]
          split <;> exact ⟨_, rfl⟩
        exact ⟨.read, s', hs⟩

/-- However the threads take turns, all of the input comes to the VM, and then the end. -/
theorem inevitable_forwarded (reads : List ReadLine) :
    Inevitable undisturbed (fun s => s.forwarder = .ended true ∧ s.forwarded = total reads) (init reads) := by
  refine Inevitable.of_measure (Undisturbed reads) State.left (fun _ h hnot => ?_) (fun _ _ _ h hs => h.after hs)
    (fun _ _ _ h hs => left_lt h.notStopped hs) ⟨stage_init, rfl, by simp [init]⟩
  refine exists_undisturbed fun ok hok => ?_
  cases ok with
  | false => exact h.noFailure hok
  | true =>
    have hstage := h.stage
    unfold Stage at hstage
    rw [hok] at hstage
    exact hnot ⟨hok, hstage.2 rfl h.notStopped⟩

/-! ## The bytes of the input -/

theorem total_readLines (input : Bytes) : total (readLines input) = readable input ++ [endOfTransmission] := by
  unfold total readLines readable
  induction splitLines input with
  | nil => rfl
  | cons line lines ih =>
    cases htext : (fromUtf8 line).isSome with
    | true => simpa [messages, htext, messageBytes] using ih
    | false => simp [messages, htext, messageBytes]

/-- An input whose threads nobody disturbs comes to the VM up to the first line that is not UTF-8, and then its end. -/
theorem stdin_forwarded (input : Bytes) :
    Inevitable undisturbed (fun s => s.forwarder = .ended true ∧ s.forwarded = readable input ++ [endOfTransmission])
      (init (readLines input)) :=
  total_readLines input ▸ inevitable_forwarded (readLines input)

/-- Bytes before an input belong to its first line. -/
theorem splitLines_append {a b : Bytes} (ha : newline ∉ a) (hne : a ≠ []) :
    (splitLines b = [] → splitLines (a ++ b) = [a]) ∧
      ∀ line lines, splitLines b = line :: lines → splitLines (a ++ b) = (a ++ line) :: lines := by
  induction a with
  | nil => exact absurd rfl hne
  | cons x a ih =>
    have hx : x ≠ newline := fun h => ha (h ▸ List.mem_cons_self)
    rw [List.cons_append, splitLines, if_neg hx]
    cases a with
    | nil =>
      rw [List.nil_append]
      exact ⟨fun h => by rw [h], fun line lines h => by rw [h]; rfl⟩
    | cons y a =>
      obtain ⟨hnil, hcons⟩ := ih (fun h => ha (List.mem_cons_of_mem _ h)) (List.cons_ne_nil y a)
      exact ⟨fun h => by rw [hnil h], fun line lines h => by rw [hcons line lines h]; rfl⟩

/-- The lines of a text, as bytes and as characters. -/
theorem splitLines_utf8 (s : List Char) : splitLines (utf8 s) = (linesOf s).map utf8 := by
  induction s with
  | nil => rfl
  | cons c s ih =>
    by_cases hc : c = '\n'
    · rw [hc, utf8_cons, linesOf, if_pos rfl]
      change splitLines (newline :: utf8 s) = [newline] :: (linesOf s).map utf8
      rw [splitLines, if_pos rfl, ih]
    · have hnot : newline ∉ String.utf8EncodeChar c := by
        have hmem : newline ∉ utf8 [c] := fun h => hc (List.mem_singleton.1 (newline_mem_utf8.1 h)).symm
        simpa [utf8] using hmem
      obtain ⟨hnil, hcons⟩ := splitLines_append (b := utf8 s) hnot (by simp)
      rw [utf8_cons, linesOf, if_neg hc]
      cases hs : linesOf s with
      | nil =>
        rw [hs, List.map_nil] at ih
        rw [hnil ih]
        simp [utf8]
      | cons line lines =>
        rw [hs, List.map_cons] at ih
        rw [hcons _ _ ih]
        simp [utf8_cons]

/-- All of a text can be read. -/
theorem readable_utf8 (s : List Char) : readable (utf8 s) = utf8 s := by
  have hall : ∀ line ∈ (linesOf s).map utf8, (fromUtf8 line).isSome = true := by
    intro line hline
    obtain ⟨t, -, rfl⟩ := List.mem_map.1 hline
    rw [fromUtf8_eq_some.2 rfl]
    rfl
  rw [readable, splitLines_utf8, List.takeWhile_eq_self_iff.2 hall, ← utf8_flatten, flatten_linesOf]

/-- All of a text comes to the VM. -/
theorem text_forwarded (s : List Char) :
    Inevitable undisturbed (fun st => st.forwarder = .ended true ∧ st.forwarded = utf8 s ++ [endOfTransmission])
      (init (readLines (utf8 s))) := by
  have h := stdin_forwarded (utf8 s)
  rwa [readable_utf8] at h

end StdinForwarder

end Anylinuxfs
