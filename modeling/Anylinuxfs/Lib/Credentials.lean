import Mathlib.Data.List.Basic

/-!
# The user and the group of a process

The real, the effective and the saved identifiers of credentials(7) and the calls that change them. A process is privileged
while its effective user is root. A call that is not permitted fails and changes nothing, so a failed call is `none`.
-/

namespace Posix

/-- The three identifiers of one kind. -/
structure Ids where
  real : Nat
  effective : Nat
  saved : Nat
  deriving DecidableEq, Repr

/-- All three are the same. -/
def Ids.all (id : Nat) : Ids := ⟨id, id, id⟩

/-- The identifiers a process may take without being privileged. -/
def Ids.owns (ids : Ids) (id : Nat) : Prop := id = ids.real ∨ id = ids.effective ∨ id = ids.saved

instance decidableOwns (ids : Ids) (id : Nat) : Decidable (ids.owns id) := inferInstanceAs (Decidable (_ ∨ _ ∨ _))

@[simp] theorem Ids.owns_all {id n : Nat} : (Ids.all n).owns id ↔ id = n := by
  simp [Ids.owns, Ids.all]

/-- The user and the group of a process. -/
structure Creds where
  uid : Ids
  gid : Ids
  deriving DecidableEq, Repr

namespace Creds

/-- The process acts as root. -/
def privileged (c : Creds) : Prop := c.uid.effective = 0

instance decidablePrivileged (c : Creds) : Decidable c.privileged := inferInstanceAs (Decidable (_ = _))

/-- seteuid(2). -/
def seteuid (id : Nat) (c : Creds) : Option Creds :=
  if c.privileged ∨ c.uid.owns id then some { c with uid.effective := id } else none

/-- setegid(2). -/
def setegid (id : Nat) (c : Creds) : Option Creds :=
  if c.privileged ∨ c.gid.owns id then some { c with gid.effective := id } else none

/-- setuid(2): a privileged process changes all three, for good. -/
def setuid (id : Nat) (c : Creds) : Option Creds :=
  if c.privileged then some { c with uid := .all id }
  else if id = c.uid.real ∨ id = c.uid.saved then some { c with uid.effective := id }
  else none

/-- setgid(2). -/
def setgid (id : Nat) (c : Creds) : Option Creds :=
  if c.privileged then some { c with gid := .all id }
  else if id = c.gid.real ∨ id = c.gid.saved then some { c with gid.effective := id }
  else none

@[simp] theorem seteuid_privileged {c : Creds} (h : c.uid.effective = 0) (id : Nat) :
    c.seteuid id = some { c with uid.effective := id } :=
  if_pos (.inl h)

@[simp] theorem setegid_privileged {c : Creds} (h : c.uid.effective = 0) (id : Nat) :
    c.setegid id = some { c with gid.effective := id } :=
  if_pos (.inl h)

@[simp] theorem setuid_privileged {c : Creds} (h : c.uid.effective = 0) (id : Nat) :
    c.setuid id = some { c with uid := .all id } :=
  if_pos h

@[simp] theorem setgid_privileged {c : Creds} (h : c.uid.effective = 0) (id : Nat) :
    c.setgid id = some { c with gid := .all id } :=
  if_pos h

/-- A process may always act as its real user again. -/
theorem seteuid_real (c : Creds) : c.seteuid c.uid.real = some { c with uid.effective := c.uid.real } :=
  if_pos (.inr (.inl rfl))

/-! ## Sequences of calls -/

/-- A call that changes identifiers. -/
inductive SetCall where
  | seteuid (id : Nat)
  | setegid (id : Nat)
  | setuid (id : Nat)
  | setgid (id : Nat)
  deriving DecidableEq, Repr

/-- A call changes only effective identifiers. -/
def SetCall.effectiveOnly : SetCall → Bool
  | .seteuid _ | .setegid _ => true
  | _ => false

/-- The credentials after a call, whether it succeeds or fails. -/
def after (c : Creds) : SetCall → Creds
  | .seteuid id => (c.seteuid id).getD c
  | .setegid id => (c.setegid id).getD c
  | .setuid id => (c.setuid id).getD c
  | .setgid id => (c.setgid id).getD c

/-- Nothing of root is left: all identifiers are those of one user and one group. -/
def Sealed (u g : Nat) (c : Creds) : Prop := c = ⟨.all u, .all g⟩

/-- A call that is permitted only where it changes nothing. -/
theorem getD_permitted {c c' : Creds} {p : Prop} [Decidable p] (h : p → c' = c) : (if p then some c' else none).getD c = c := by
  by_cases hp : p
  · rw [if_pos hp, Option.getD_some, h hp]
  · rw [if_neg hp, Option.getD_none]

/-- No call changes credentials without a trace of root. -/
theorem Sealed.after {u g : Nat} {c : Creds} (hu : u ≠ 0) (h : c.Sealed u g) (call : SetCall) : c.after call = c := by
  subst h
  have hpriv : ¬(⟨.all u, .all g⟩ : Creds).privileged := hu
  cases call with
  | seteuid id => exact getD_permitted fun hid => by rw [Ids.owns_all.1 (hid.resolve_left hpriv)]; rfl
  | setegid id => exact getD_permitted fun hid => by rw [Ids.owns_all.1 (hid.resolve_left hpriv)]; rfl
  | setuid id =>
    simp only [Creds.after, setuid, if_neg hpriv]
    exact getD_permitted fun hid => by rw [or_self_iff.1 hid]; rfl
  | setgid id =>
    simp only [Creds.after, setgid, if_neg hpriv]
    exact getD_permitted fun hid => by rw [or_self_iff.1 hid]; rfl

/-- No sequence of calls changes credentials without a trace of root. -/
theorem Sealed.foldl {u g : Nat} {c : Creds} (hu : u ≠ 0) (h : c.Sealed u g) (calls : List SetCall) :
    calls.foldl Creds.after c = c := by
  induction calls with
  | nil => rfl
  | cons call calls ih => rw [List.foldl_cons, h.after hu, ih]

/-- The process can become root again: its real and its saved identifiers are those of root. -/
def Recoverable (c : Creds) : Prop := c.uid.real = 0 ∧ c.uid.saved = 0 ∧ c.gid.real = 0 ∧ c.gid.saved = 0

/-- Calls that change only effective identifiers leave the way back to root open. -/
theorem Recoverable.after {c : Creds} (h : c.Recoverable) {call : SetCall} (hc : call.effectiveOnly = true) :
    (c.after call).Recoverable := by
  cases call with
  | seteuid id =>
    simp only [Creds.after, seteuid]
    split <;> exact h
  | setegid id =>
    simp only [Creds.after, setegid]
    split <;> exact h
  | setuid id => cases hc
  | setgid id => cases hc

end Creds

end Posix
