import Anylinuxfs.Lib.Exec

/-!
# Programs that are cut short

A program on a state of which only the first calls may be made, because the process is killed or the machine stops. `Durable` is
the triple of such a program: to the postconditions of its two ways to end it adds one for the states between its calls.
-/

namespace Interact

namespace Prog

variable {C : Type} {A : C → Type} {ε α β σ : Type}

/-- How a program ends that may make at most `n` calls, if it ends, and the state it leaves. -/
def cut (impl : (c : C) → σ → A c × σ) : Prog C A ε α → Nat → σ → Option (Except ε α) × σ
  | ret a, _, s => (some (.ok a), s)
  | fail e, _, s => (some (.error e), s)
  | call _ _, 0, s => (none, s)
  | call c k, n + 1, s => (k (impl c s).1).cut impl n (impl c s).2

/-- Go on, or fail. -/
def require (e : ε) (ok : Bool) : Prog C A ε Unit := if ok then pure () else fail e

/-- A program that is only run if what comes before it is true. -/
def andAlso (ok : Bool) (p : Prog C A ε Bool) : Prog C A ε Bool := if ok then p else pure false

/-- A postcondition of a program that may have been cut short. -/
def Stops (Q : α → σ → Prop) (F : ε → σ → Prop) (I : σ → Prop) : Option (Except ε α) × σ → Prop
  | (some (.ok a), s) => Q a s
  | (some (.error e), s) => F e s
  | (none, s) => I s

variable (impl : (c : C) → σ → A c × σ)

/-- From every state that meets the precondition, and wherever it is cut, the program leaves a state that meets the postcondition
of its end, or the condition on the states between the calls. -/
def Durable (P : σ → Prop) (p : Prog C A ε α) (Q : α → σ → Prop) (F : ε → σ → Prop) (I : σ → Prop) : Prop :=
  ∀ s, P s → ∀ n, Stops Q F I (p.cut impl n s)

variable {impl} {P P' : σ → Prop} {p : Prog C A ε α} {Q Q' : α → σ → Prop} {F F' : ε → σ → Prop} {I I' : σ → Prop}

theorem Stops.mono {r : Option (Except ε α) × σ} (hQ : ∀ a s, Q a s → Q' a s) (hF : ∀ e s, F e s → F' e s)
    (hI : ∀ s, I s → I' s) (h : Stops Q F I r) : Stops Q' F' I' r := by
  obtain ⟨_ | ⟨r | r⟩, s⟩ := r
  · exact hI s h
  · exact hF r s h
  · exact hQ r s h

namespace Durable

/-- A stronger precondition and weaker postconditions. -/
theorem conseq (hP : ∀ s, P' s → P s) (hQ : ∀ a s, Q a s → Q' a s) (hF : ∀ e s, F e s → F' e s) (hI : ∀ s, I s → I' s)
    (h : Durable impl P p Q F I) : Durable impl P' p Q' F' I' :=
  fun s hs n => (h s (hP s hs) n).mono hQ hF hI

protected theorem pure {a : α} (h : ∀ s, P s → Q a s) : Durable impl P (pure a : Prog C A ε α) Q F I := fun s hs _ => h s hs

protected theorem fail {e : ε} (h : ∀ s, P s → F e s) : Durable impl P (fail e : Prog C A ε α) Q F I := fun s hs _ => h s hs

/-- One call, in front of which the program may be cut. -/
theorem perform {c : C} {Q : A c → σ → Prop} (hI : ∀ s, P s → I s) (h : ∀ s, P s → Q (impl c s).1 (impl c s).2) :
    Durable impl P (Prog.perform c : Prog C A ε (A c)) Q F I := by
  intro s hs n
  cases n with
  | zero => exact hI s hs
  | succ n => exact h s hs

/-- One program after another. -/
protected theorem bind {f : α → Prog C A ε β} {Q : β → σ → Prop} {M : α → σ → Prop} (hp : Durable impl P p M F I)
    (hf : ∀ a, Durable impl (M a) (f a) Q F I) : Durable impl P (p >>= f) Q F I := by
  intro s hs n
  have h := hp s hs
  change Stops Q F I ((p.bind f).cut impl n s)
  clear hp hs
  induction p generalizing s n with
  | ret a => exact hf a s (h n) n
  | fail e => exact h n
  | call c k ih =>
    cases n with
    | zero => exact h 0
    | succ n => exact ih _ _ n fun m => h (m + 1)

/-- A program that goes on only if it is answered that it may. -/
theorem require {p : Prog C A ε Bool} {e : ε} {Q : σ → Prop}
    (h : p.Durable impl P (fun ok s => I s ∧ (ok = true → Q s)) (fun _ => I) I) :
    Durable impl P (p >>= Prog.require e) (fun _ => Q) (fun _ => I) I := by
  refine h.bind fun ok => ?_
  cases ok with
  | true => exact Durable.pure fun s hs => hs.2 rfl
  | false => exact Durable.fail fun s hs => hs.1

theorem andAlso {ok : Bool} {p : Prog C A ε Bool} {Q : Bool → σ → Prop} (hp : ok = true → p.Durable impl P Q F I)
    (hfalse : ok = false → ∀ s, P s → Q false s) : Durable impl P (Prog.andAlso ok p) Q F I := by
  cases ok with
  | true => exact hp rfl
  | false => exact Durable.pure (hfalse rfl)

/-- What does not depend on the state holds at the end as well. -/
theorem frame {φ : Prop} (h : Durable impl P p Q F I) : Durable impl (fun s => P s ∧ φ) p (fun a s => Q a s ∧ φ) F I :=
  fun s hs n => (h s hs.1 n).mono (fun _ _ h => ⟨h, hs.2⟩) (fun _ _ h => h) fun _ h => h

/-- What holds at every end of a complete run, and between any two of its calls, holds of the state that a run leaves. -/
theorem leaves (h : Durable impl P p (fun _ => I) (fun _ => I) I) {s : σ} (hs : P s) (n : Nat) : I (p.cut impl n s).2 := by
  have hstop := h s hs n
  generalize p.cut impl n s = result at hstop ⊢
  obtain ⟨_ | ⟨r | r⟩, s'⟩ := result <;> exact hstop

end Durable

end Prog

end Interact
