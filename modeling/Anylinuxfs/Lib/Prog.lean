import Mathlib.Data.List.Basic

/-!
# Programs that call their environment

A program is a tree of calls: it returns a value, fails with an error, or makes a call `c` and goes on with the answer, which
is of the type `A c`. What the environment answers is not part of the program, so the programs of several processes can be
interleaved call by call.

`Prog.wp` is the weakest precondition of a program over a state that every call changes in a known way: each call must be
allowed in the state it is made in, whatever was answered before, and the program may end only in states that meet the
postcondition of its way to end.
-/

namespace Interact

/-- A program with the calls `C`, the answers `A`, the errors `ε` and the result `α`. -/
inductive Prog (C : Type) (A : C → Type) (ε α : Type) where
  | ret (a : α)
  | fail (e : ε)
  | call (c : C) (k : A c → Prog C A ε α)

namespace Prog

variable {C : Type} {A : C → Type} {ε α β : Type}

/-- One program after another; an error ends both. -/
def bind : Prog C A ε α → (α → Prog C A ε β) → Prog C A ε β
  | ret a, f => f a
  | fail e, _ => fail e
  | call c k, f => call c (fun r => (k r).bind f)

/-- What is done when a program fails. -/
def handle : Prog C A ε α → (ε → Prog C A ε α) → Prog C A ε α
  | ret a, _ => ret a
  | fail e, h => h e
  | call c k, h => call c (fun r => (k r).handle h)

instance : Monad (Prog C A ε) where
  pure := ret
  bind := bind

/-- Three programs one after another. -/
theorem bind_bind {γ : Type} (p : Prog C A ε α) (f : α → Prog C A ε β) (g : β → Prog C A ε γ) :
    p >>= f >>= g = p >>= fun a => f a >>= g := by
  change (p.bind f).bind g = p.bind fun a => (f a).bind g
  induction p with
  | ret a => rfl
  | fail e => rfl
  | call c k ih => exact congrArg (call c) (funext ih)

/-- The program of one call. -/
def perform (c : C) : Prog C A ε (A c) := call c ret

/-- Run a last part on both ways out of a program. -/
def ensuring (p : Prog C A ε α) (last : Prog C A ε Unit) : Prog C A ε α :=
  (p.handle (fun e => last.bind (fun _ => fail e))).bind (fun a => last.bind (fun _ => ret a))

end Prog

/-- What is known of the calls: when a call is allowed, and how it changes the state. -/
structure Rules (C : Type) (A : C → Type) (σ : Type) where
  allowed : σ → C → Prop
  after : σ → (c : C) → A c → σ

namespace Prog

variable {C : Type} {A : C → Type} {ε α β σ : Type} (R : Rules C A σ)

/-- The weakest precondition of a program for a postcondition of its results and one of its errors. -/
def wp (Q : α → σ → Prop) (F : ε → σ → Prop) : Prog C A ε α → σ → Prop
  | ret a, s => Q a s
  | fail e, s => F e s
  | call c k, s => R.allowed s c ∧ ∀ r, wp Q F (k r) (R.after s c r)

variable {R} {Q : α → σ → Prop} {F : ε → σ → Prop} {s : σ}

@[simp] theorem wp_pure (a : α) : (pure a : Prog C A ε α).wp R Q F s ↔ Q a s := Iff.rfl

/-- A weaker postcondition is easier to meet. -/
theorem wp_mono {Q' : α → σ → Prop} {F' : ε → σ → Prop} {p : Prog C A ε α} (hQ : ∀ a s, Q a s → Q' a s)
    (hF : ∀ e s, F e s → F' e s) (h : p.wp R Q F s) : p.wp R Q' F' s := by
  induction p generalizing s with
  | ret a => exact hQ a s h
  | fail e => exact hF e s h
  | call c k ih => exact ⟨h.1, fun r => ih r (h.2 r)⟩

@[simp] theorem wp_bind {p : Prog C A ε α} {f : α → Prog C A ε β} {Q : β → σ → Prop} :
    (p >>= f).wp R Q F s ↔ p.wp R (fun a => (f a).wp R Q F) F s := by
  change (p.bind f).wp R Q F s ↔ _
  induction p generalizing s with
  | ret a => exact Iff.rfl
  | fail e => exact Iff.rfl
  | call c k ih => exact and_congr_right fun _ => forall_congr' fun r => ih r

@[simp] theorem wp_handle {p : Prog C A ε α} {h : ε → Prog C A ε α} :
    (p.handle h).wp R Q F s ↔ p.wp R Q (fun e => (h e).wp R Q F) s := by
  induction p generalizing s with
  | ret a => exact Iff.rfl
  | fail e => exact Iff.rfl
  | call c k ih => exact and_congr_right fun _ => forall_congr' fun r => ih r

/-- A program that leaves the state as it was, whichever way it ends. -/
def Keeps (R : Rules C A σ) (s : σ) (p : Prog C A ε α) : Prop := p.wp R (fun _ s' => s' = s) (fun _ s' => s' = s) s

/-- After a program that leaves the state as it was, the rest starts in the same state. -/
theorem wp_bind_of_keeps {p : Prog C A ε α} {f : α → Prog C A ε β} {Q : β → σ → Prop} (hp : p.Keeps R s) (hF : ∀ e, F e s)
    (hf : ∀ a, (f a).wp R Q F s) : (p >>= f).wp R Q F s := by
  refine wp_bind.2 (wp_mono (fun a s' hs => ?_) (fun e s' hs => ?_) hp)
  · rw [hs]
    exact hf a
  · rw [hs]
    exact hF e

theorem Keeps.bind {p : Prog C A ε α} {f : α → Prog C A ε β} (hp : p.Keeps R s) (hf : ∀ a, (f a).Keeps R s) :
    (p >>= f).Keeps R s :=
  wp_bind_of_keeps hp (fun _ => rfl) hf

/-- Something to do after a program on both ways out. -/
theorem wp_ensuring {p : Prog C A ε α} {last : Prog C A ε Unit} (Q₁ : α → σ → Prop) (F₁ : ε → σ → Prop)
    (h : p.wp R Q₁ F₁ s) (hQ : ∀ a s, Q₁ a s → last.wp R (fun _ => Q a) F s)
    (hF : ∀ e s, F₁ e s → last.wp R (fun _ => F e) F s) : (p.ensuring last).wp R Q F s := by
  refine wp_bind.2 (wp_handle.2 (wp_mono (fun a s ha => ?_) (fun e s he => ?_) h))
  · exact wp_bind.2 (hQ a s ha)
  · exact wp_bind.2 (hF e s he)

end Prog

/-! ## Runs -/

namespace Prog

variable {C : Type} {A : C → Type} {ε α β : Type} (env : ∀ c, A c)

/-- How a program ends when the environment answers every call by `env`. -/
@[simp] def result : Prog C A ε α → Except ε α
  | ret a => .ok a
  | fail e => .error e
  | call c k => (k (env c)).result

/-- The calls that a program makes when the environment answers every call by `env`. -/
@[simp] def trace : Prog C A ε α → List C
  | ret _ => []
  | fail _ => []
  | call c k => c :: (k (env c)).trace

@[simp] theorem result_pure (a : α) : (pure a : Prog C A ε α).result env = .ok a := rfl

@[simp] theorem trace_pure (a : α) : (pure a : Prog C A ε α).trace env = [] := rfl

variable {env} {p : Prog C A ε α} {f : α → Prog C A ε β} {h : ε → Prog C A ε α}

/-- A sequence ends as its second part does on what the first one returned. -/
theorem result_bind : (p >>= f).result env =
    match p.result env with
    | .ok a => (f a).result env
    | .error e => .error e := by
  change (p.bind f).result env = _
  induction p with
  | ret a => rfl
  | fail e => rfl
  | call c k ih => exact ih _

/-- The calls of a sequence are those of its first part, and then, if it returns, those of the second. -/
theorem trace_bind : (p >>= f).trace env =
    p.trace env ++ match p.result env with
      | .ok a => (f a).trace env
      | .error _ => [] := by
  change (p.bind f).trace env = _
  induction p with
  | ret a => rfl
  | fail e => rfl
  | call c k ih => exact congrArg (c :: ·) (ih _)

/-- A sequence returns what its second part returns on what the first one returned. -/
@[simp] theorem result_bind_eq_ok {b : β} :
    (p >>= f).result env = .ok b ↔ ∃ a, p.result env = .ok a ∧ (f a).result env = .ok b := by
  change (p.bind f).result env = .ok b ↔ _
  induction p with
  | ret a => simp [bind, result]
  | fail e => simp [bind, result]
  | call c k ih => exact ih _

@[simp] theorem result_handle_eq_ok {a : α} :
    (p.handle h).result env = .ok a ↔ p.result env = .ok a ∨ ∃ e, p.result env = .error e ∧ (h e).result env = .ok a := by
  induction p with
  | ret b => simp [handle, result]
  | fail e => simp [handle, result]
  | call c k ih => exact ih _

/-- A call of a sequence is one of its first part, or one of the second part when the first one returns. -/
@[simp] theorem mem_trace_bind {c : C} :
    c ∈ (p >>= f).trace env ↔ c ∈ p.trace env ∨ ∃ a, p.result env = .ok a ∧ c ∈ (f a).trace env := by
  change c ∈ (p.bind f).trace env ↔ _
  induction p with
  | ret a => simp [bind, result, trace]
  | fail e => simp [bind, result, trace]
  | call c' k ih => simp [bind, result, trace, ih, or_assoc]

@[simp] theorem mem_trace_handle {c : C} :
    c ∈ (p.handle h).trace env ↔ c ∈ p.trace env ∨ ∃ e, p.result env = .error e ∧ c ∈ (h e).trace env := by
  induction p with
  | ret a => simp [handle, result, trace]
  | fail e => simp [handle, result, trace]
  | call c' k ih => simp [handle, result, trace, ih, or_assoc]

/-- One call is made before another. -/
def Precedes (env : ∀ c, A c) (p : Prog C A ε α) (c c' : C) : Prop := [c, c'].Sublist (p.trace env)

variable {c c' : C}

theorem Precedes.mem_left (h : Precedes env p c c') : c ∈ p.trace env := h.subset (by simp)

@[simp] theorem not_precedes_fail (e : ε) : ¬ Precedes env (fail e : Prog C A ε α) c c' := by
  simp [Precedes]

@[simp] theorem not_precedes_ret (a : α) : ¬ Precedes env (ret a : Prog C A ε α) c c' := by
  simp [Precedes]

@[simp] theorem precedes_call {d : C} {k : A d → Prog C A ε α} :
    Precedes env (call d k) c c' ↔ Precedes env (k (env d)) c c' ∨ (c = d ∧ c' ∈ (k (env d)).trace env) := by
  simp only [Precedes, trace]
  constructor
  · intro h
    cases h with
    | cons _ h => exact .inl h
    | cons_cons _ h => exact .inr ⟨rfl, List.singleton_sublist.1 h⟩
  · rintro (h | ⟨rfl, h⟩)
    · exact h.cons _
    · exact (List.singleton_sublist.2 h).cons_cons _

/-- Two calls of a sequence are in the order of its parts. -/
@[simp] theorem precedes_bind : Precedes env (p >>= f) c c' ↔ Precedes env p c c' ∨
    ∃ a, p.result env = .ok a ∧ (Precedes env (f a) c c' ∨ (c ∈ p.trace env ∧ c' ∈ (f a).trace env)) := by
  change Precedes env (p.bind f) c c' ↔ _
  induction p with
  | ret a => simp [bind, result, trace, Precedes]
  | fail e => simp [bind, result, trace, Precedes]
  | call d k ih =>
    have hmem : c' ∈ ((k (env d)).bind f).trace env ↔ _ := mem_trace_bind
    simp only [bind, precedes_call, ih, hmem, result, trace, List.mem_cons]
    constructor
    · rintro ((h | ⟨a, ha, h | h⟩) | ⟨hc, h | ⟨a, ha, h⟩⟩)
      · exact .inl (.inl h)
      · exact .inr ⟨a, ha, .inl h⟩
      · exact .inr ⟨a, ha, .inr ⟨.inr h.1, h.2⟩⟩
      · exact .inl (.inr ⟨hc, h⟩)
      · exact .inr ⟨a, ha, .inr ⟨.inl hc, h⟩⟩
    · rintro ((h | h) | ⟨a, ha, h | ⟨hc | hc, h⟩⟩)
      · exact .inl (.inl h)
      · exact .inr ⟨h.1, .inl h.2⟩
      · exact .inl (.inr ⟨a, ha, .inl h⟩)
      · exact .inr ⟨hc, .inr ⟨a, ha, h⟩⟩
      · exact .inl (.inr ⟨a, ha, .inr ⟨hc, h⟩⟩)

@[simp] theorem precedes_handle : Precedes env (p.handle h) c c' ↔ Precedes env p c c' ∨
    ∃ e, p.result env = .error e ∧ (Precedes env (h e) c c' ∨ (c ∈ p.trace env ∧ c' ∈ (h e).trace env)) := by
  induction p with
  | ret a => simp [handle, result, trace, Precedes]
  | fail e => simp [handle, result, trace, Precedes]
  | call d k ih =>
    simp only [handle, precedes_call, ih, mem_trace_handle, result, trace, List.mem_cons]
    constructor
    · rintro ((h | ⟨a, ha, h | h⟩) | ⟨hc, h | ⟨a, ha, h⟩⟩)
      · exact .inl (.inl h)
      · exact .inr ⟨a, ha, .inl h⟩
      · exact .inr ⟨a, ha, .inr ⟨.inr h.1, h.2⟩⟩
      · exact .inl (.inr ⟨hc, h⟩)
      · exact .inr ⟨a, ha, .inr ⟨.inl hc, h⟩⟩
    · rintro ((h | h) | ⟨a, ha, h | ⟨hc | hc, h⟩⟩)
      · exact .inl (.inl h)
      · exact .inr ⟨h.1, .inl h.2⟩
      · exact .inl (.inr ⟨a, ha, .inl h⟩)
      · exact .inr ⟨hc, .inr ⟨a, ha, h⟩⟩
      · exact .inl (.inr ⟨a, ha, .inr ⟨hc, h⟩⟩)

/-! A last part comes after a program on both ways out. -/

variable {last : Prog C A ε Unit}

theorem ensuring_eq : p.ensuring last = (p.handle (fun e => last >>= fun _ => fail e)) >>= fun a => last >>= fun _ => ret a :=
  rfl

@[simp] theorem result_ensuring_eq_ok {a : α} :
    (p.ensuring last).result env = .ok a ↔ p.result env = .ok a ∧ last.result env = .ok () := by
  simp [ensuring_eq, Unique.exists_iff]

theorem trace_ensuring : (p.ensuring last).trace env = p.trace env ++ last.trace env := by
  change ((p.handle (fun e => last.bind (fun _ => fail e))).bind (fun a => last.bind (fun _ => ret a))).trace env = _
  induction p with
  | ret a =>
    change (last >>= fun _ => ret a).trace env = _
    cases hl : last.result env <;> simp [trace_bind, hl]
  | fail e =>
    change ((last >>= fun _ => fail e) >>= fun a => last >>= fun _ => ret a).trace env = _
    cases hl : last.result env <;> simp [trace_bind, result_bind, hl]
  | call c k ih => exact congrArg (c :: ·) (ih _)

@[simp] theorem mem_trace_ensuring : c ∈ (p.ensuring last).trace env ↔ c ∈ p.trace env ∨ c ∈ last.trace env := by
  cases hp : p.result env <;> simp [ensuring_eq, hp]

@[simp] theorem precedes_ensuring : Precedes env (p.ensuring last) c c' ↔
    Precedes env p c c' ∨ Precedes env last c c' ∨ (c ∈ p.trace env ∧ c' ∈ last.trace env) := by
  cases hp : p.result env <;> simp [ensuring_eq, hp]

end Prog

/-! ## Logs -/

namespace Prog

variable {C : Type} {A : C → Type} {ε α β : Type}

/-- A program returns a value after the calls of a log, when they are answered as the log says. The same call may be answered
differently each time. -/
def Yields : Prog C A ε α → List (Σ c, A c) → α → Prop
  | ret a, log, b => log = [] ∧ b = a
  | fail _, _, _ => False
  | call c k, log, b => ∃ r rest, log = ⟨c, r⟩ :: rest ∧ (k r).Yields rest b

variable {p : Prog C A ε α} {f : α → Prog C A ε β} {h : ε → Prog C A ε α} {log : List (Σ c, A c)} {a : α} {b b' : β}

theorem yields_pure : (pure b : Prog C A ε β).Yields log b' ↔ log = [] ∧ b' = b := Iff.rfl

theorem yields_perform {c : C} {r : A c} : (perform c : Prog C A ε (A c)).Yields log r ↔ log = [⟨c, r⟩] := by
  constructor
  · rintro ⟨r', rest, rfl, rfl, rfl⟩
    rfl
  · rintro rfl
    exact ⟨r, [], rfl, rfl, rfl⟩

/-- The log of a sequence is cut where its second part begins. -/
theorem yields_bind : (p >>= f).Yields log b ↔ ∃ a before after, log = before ++ after ∧ p.Yields before a ∧ (f a).Yields after b := by
  change (p.bind f).Yields log b ↔ _
  induction p generalizing log with
  | ret a =>
    constructor
    · exact fun h => ⟨a, [], log, rfl, ⟨rfl, rfl⟩, h⟩
    · rintro ⟨_, _, after, rfl, ⟨rfl, rfl⟩, h⟩
      exact h
  | fail e =>
    constructor
    · exact fun h => h.elim
    · rintro ⟨_, _, _, _, h, _⟩
      exact h
  | call c k ih =>
    constructor
    · rintro ⟨r, rest, rfl, h⟩
      obtain ⟨a, before, after, rfl, hp, hf⟩ := (ih r).1 h
      exact ⟨a, ⟨c, r⟩ :: before, after, rfl, ⟨r, before, rfl, hp⟩, hf⟩
    · rintro ⟨a, _, after, rfl, ⟨r, before, rfl, hp⟩, hf⟩
      exact ⟨r, before ++ after, rfl, (ih r).2 ⟨a, before, after, rfl, hp, hf⟩⟩

/-- A handler that never returns leaves the logs of the program as they are. -/
theorem yields_handle (hh : ∀ e log a, ¬(h e).Yields log a) : (p.handle h).Yields log a ↔ p.Yields log a := by
  induction p generalizing log with
  | ret a => exact Iff.rfl
  | fail e => exact iff_of_false (hh e log a) id
  | call c k ih => exact exists_congr fun r => exists_congr fun rest => and_congr_right fun _ => ih r

end Prog

end Interact
