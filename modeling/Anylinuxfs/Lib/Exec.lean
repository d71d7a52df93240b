import Anylinuxfs.Lib.Prog

/-!
# Programs on a state

A program whose calls are answered by a state that they change: `impl c s` is the answer to the call `c` in the state `s` and the
state after it. `Hoare` is the total triple of such a program, with a postcondition for each of its two ways to end; it has a rule
for every way to put programs together.
-/

namespace Interact

namespace Prog

variable {C : Type} {A : C → Type} {ε α β σ : Type}

/-- How a program ends, and the state it leaves. -/
def exec (impl : (c : C) → σ → A c × σ) : Prog C A ε α → σ → Except ε α × σ
  | ret a, s => (.ok a, s)
  | fail e, s => (.error e, s)
  | call c k, s => (k (impl c s).1).exec impl (impl c s).2

/-- A postcondition of an end of a program. -/
def Ends (Q : α → σ → Prop) (F : ε → σ → Prop) : Except ε α × σ → Prop
  | (.ok a, s) => Q a s
  | (.error e, s) => F e s

variable (impl : (c : C) → σ → A c × σ)

/-- From every state that meets the precondition, the program ends in one that meets the postcondition of its end. -/
def Hoare (P : σ → Prop) (p : Prog C A ε α) (Q : α → σ → Prop) (F : ε → σ → Prop) : Prop :=
  ∀ s, P s → Ends Q F (p.exec impl s)

variable {impl} {P P' : σ → Prop} {p : Prog C A ε α} {Q Q' : α → σ → Prop} {F F' : ε → σ → Prop}

theorem Ends.mono {r : Except ε α × σ} (hQ : ∀ a s, Q a s → Q' a s) (hF : ∀ e s, F e s → F' e s) (h : Ends Q F r) :
    Ends Q' F' r := by
  obtain ⟨r | r, s⟩ := r
  · exact hF r s h
  · exact hQ r s h

namespace Hoare

/-- A stronger precondition and weaker postconditions. -/
theorem conseq (hP : ∀ s, P' s → P s) (hQ : ∀ a s, Q a s → Q' a s) (hF : ∀ e s, F e s → F' e s) (h : Hoare impl P p Q F) :
    Hoare impl P' p Q' F' :=
  fun s hs => (h s (hP s hs)).mono hQ hF

protected theorem pure {a : α} (h : ∀ s, P s → Q a s) : Hoare impl P (pure a : Prog C A ε α) Q F := h

protected theorem fail {e : ε} (h : ∀ s, P s → F e s) : Hoare impl P (fail e : Prog C A ε α) Q F := h

/-- One call. -/
theorem perform {c : C} {Q : A c → σ → Prop} (h : ∀ s, P s → Q (impl c s).1 (impl c s).2) :
    Hoare impl P (Prog.perform c : Prog C A ε (A c)) Q F := h

/-- One program after another. -/
protected theorem bind {f : α → Prog C A ε β} {Q : β → σ → Prop} {M : α → σ → Prop} (hp : Hoare impl P p M F)
    (hf : ∀ a, Hoare impl (M a) (f a) Q F) : Hoare impl P (p >>= f) Q F := by
  intro s hs
  have h := hp s hs
  change Ends Q F ((p.bind f).exec impl s)
  clear hp hs
  induction p generalizing s with
  | ret a => exact hf a s h
  | fail e => exact h
  | call c k ih => exact ih _ _ h

/-- What is done when a program fails. -/
theorem handle {h : ε → Prog C A ε α} {M : ε → σ → Prop} (hp : Hoare impl P p Q M) (hh : ∀ e, Hoare impl (M e) (h e) Q F) :
    Hoare impl P (p.handle h) Q F := by
  intro s hs
  have hend := hp s hs
  clear hp hs
  induction p generalizing s with
  | ret a => exact hend
  | fail e => exact hh e s hend
  | call c k ih => exact ih _ _ hend

/-- A last part on both ways out. -/
theorem ensuring {last : Prog C A ε Unit} {M : α → σ → Prop} {N : ε → σ → Prop} (hp : Hoare impl P p M N)
    (hQ : ∀ a, Hoare impl (M a) last (fun _ => Q a) F) (hF : ∀ e, Hoare impl (N e) last (fun _ => F e) F) :
    Hoare impl P (p.ensuring last) Q F := by
  refine Hoare.bind (M := M) (Hoare.handle hp fun e => ?_) fun a => ?_
  · exact Hoare.bind (hF e) fun _ => Hoare.fail fun _ h => h
  · exact Hoare.bind (hQ a) fun _ => Hoare.pure fun _ h => h

/-- A program that starts only in states that do not exist. -/
theorem of_false {p : Prog C A ε α} : Hoare impl (fun _ => False) p Q F := fun _ h => h.elim

end Hoare

end Prog

end Interact
