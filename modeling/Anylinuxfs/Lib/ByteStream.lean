import Mathlib.Data.List.Basic

/-!
# Byte streams

The reading and the writing end of a stream of bytes that is delivered in pieces. One `read` finds a piece of any size but an
empty one, an interruption, or an error; at the end of the stream it finds nothing. `readExact` and `writeAll` are the loops
that ask again until all bytes are there. What they do depends only on the bytes, not on the pieces (`readExact_of_bytes`,
`writeAll_spec`).
-/

namespace ByteStream

variable {β : Type}

/-! ## Reading -/

/-- What one `read` finds. -/
inductive Delivery (β : Type) where
  | piece (first : β) (rest : List β)
  | interrupted
  | failed

/-- The deliveries that are still to come; after the last one the stream has ended. -/
abbrev Source (β : Type) := List (Delivery β)

namespace Source

/-- The bytes that can be read: those before the first error. -/
def bytes : Source β → List β
  | [] => []
  | .piece first rest :: more => first :: rest ++ bytes more
  | .interrupted :: more => bytes more
  | .failed :: _ => []

/-- Some delivery is an error. -/
def fails : Source β → Bool
  | [] => false
  | .failed :: _ => true
  | _ :: more => fails more

/-- Put back what was left of a piece. -/
def putBack : List β → Source β → Source β
  | [], more => more
  | first :: rest, more => .piece first rest :: more

@[simp] theorem bytes_putBack (left : List β) (more : Source β) : (putBack left more).bytes = left ++ more.bytes := by
  cases left <;> simp [putBack, bytes]

/-- Read exactly `n` bytes: interruptions are ignored, and a short read is followed by another one. -/
def readExact : Nat → Source β → Option (List β × Source β)
  | 0, source => some ([], source)
  | _ + 1, [] => none
  | n + 1, .interrupted :: more => readExact (n + 1) more
  | _ + 1, .failed :: _ => none
  | n + 1, .piece first rest :: more =>
    if n ≤ rest.length then some (first :: rest.take n, putBack (rest.drop n) more)
    else (readExact (n - rest.length) more).map (fun r => (first :: rest ++ r.1, r.2))

/-- Exactly the bytes that are asked for are read, however they are delivered. -/
theorem readExact_of_bytes {n : Nat} {wanted following : List β} {source : Source β} (hn : wanted.length = n)
    (h : source.bytes = wanted ++ following) :
    ∃ source', readExact n source = some (wanted, source') ∧ source'.bytes = following := by
  induction source generalizing n wanted with
  | nil =>
    obtain ⟨rfl, rfl⟩ := List.append_eq_nil_iff.1 h.symm
    subst hn
    exact ⟨[], rfl, rfl⟩
  | cons d more ih =>
    cases n with
    | zero =>
      obtain rfl := List.eq_nil_of_length_eq_zero hn
      exact ⟨d :: more, rfl, h⟩
    | succ n =>
      obtain ⟨w, ws, rfl⟩ := List.exists_cons_of_length_eq_add_one hn
      have hlen : ws.length = n := by simpa using hn
      cases d with
      | interrupted => exact ih hn h
      | failed => simp [bytes] at h
      | piece first rest =>
        simp only [bytes, List.cons_append, List.cons.injEq] at h
        obtain ⟨rfl, h⟩ := h
        -- either the piece holds all the bytes, or the rest of them comes later
        rcases Nat.lt_or_ge rest.length n with hlt | hle
        · obtain ⟨later, rfl, hmore⟩ | ⟨left, rfl, -⟩ := List.append_eq_append_iff.1 h
          · obtain ⟨source', hread, hrest⟩ := ih rfl hmore
            refine ⟨source', ?_, hrest⟩
            have hrem : n - rest.length = later.length := by
              rw [← hlen, List.length_append, Nat.add_sub_cancel_left]
            simp [readExact, Nat.not_le.2 hlt, hrem, hread]
          · rw [List.length_append] at hlt
            omega
        · have hsplit : ∃ left, rest = ws ++ left ∧ following = left ++ bytes more := by
            obtain ⟨later, rfl, hmore⟩ | hleft := List.append_eq_append_iff.1 h
            · have hnil : later = [] := by
                rw [List.length_append] at hlen
                exact List.eq_nil_of_length_eq_zero (by omega)
              subst hnil
              exact ⟨[], by simp, by simpa using hmore.symm⟩
            · exact hleft
          obtain ⟨left, rfl, rfl⟩ := hsplit
          refine ⟨putBack left more, ?_, bytes_putBack left more⟩
          simp [readExact, ← hlen]

end Source

/-! ## Writing -/

/-- What becomes of one `write`: at least one byte is taken, or none. -/
inductive Acceptance where
  | taken (more : Nat)
  | interrupted
  | failed
  deriving DecidableEq

/-- The writing end: the bytes that were taken, and what becomes of the next writes. When the plan is over, everything is
taken. -/
structure Sink (β : Type) where
  written : List β := []
  plan : List Acceptance := []

namespace Sink

/-- Write all bytes: interruptions are ignored, and a short write (of at least one byte) is followed by another one. -/
def writeAllFrom (written : List β) : List Acceptance → List β → Option (Sink β)
  | plan, [] => some ⟨written, plan⟩
  | [], buf => some ⟨written ++ buf, []⟩
  | .interrupted :: plan, buf => writeAllFrom written plan buf
  | .failed :: _, _ => none
  | .taken more :: plan, buf => writeAllFrom (written ++ buf.take (more + 1)) plan (buf.drop (more + 1))

/-- Write all bytes to the sink. -/
def writeAll (sink : Sink β) (buf : List β) : Option (Sink β) := writeAllFrom sink.written sink.plan buf

/-- No write fails. -/
def Steady (sink : Sink β) : Prop := Acceptance.failed ∉ sink.plan

instance (sink : Sink β) : Decidable sink.Steady := inferInstanceAs (Decidable (_ ∉ _))

/-- If the loop ends well, the bytes stand behind those that were written before, and the writes to come are among those that
were to come. -/
theorem writeAllFrom_spec {written : List β} {plan : List Acceptance} {buf : List β} {sink : Sink β}
    (h : writeAllFrom written plan buf = some sink) : sink.written = written ++ buf ∧ ∀ a ∈ sink.plan, a ∈ plan := by
  induction plan generalizing written buf with
  | nil =>
    cases buf with
    | nil =>
      cases h
      exact ⟨(List.append_nil _).symm, fun _ ha => ha⟩
    | cons b bs =>
      cases h
      exact ⟨rfl, fun _ ha => ha⟩
  | cons a plan ih =>
    cases buf with
    | nil =>
      cases h
      exact ⟨(List.append_nil _).symm, fun _ ha => ha⟩
    | cons b bs =>
      cases a with
      | interrupted =>
        obtain ⟨hw, hp⟩ := ih h
        exact ⟨hw, fun a ha => List.mem_cons_of_mem _ (hp a ha)⟩
      | failed => cases h
      | taken more =>
        obtain ⟨hw, hp⟩ := ih h
        refine ⟨?_, fun a ha => List.mem_cons_of_mem _ (hp a ha)⟩
        rw [hw, List.append_assoc, List.take_append_drop]

theorem writeAll_spec {sink sink' : Sink β} {buf : List β} (h : sink.writeAll buf = some sink') :
    sink'.written = sink.written ++ buf ∧ (sink.Steady → sink'.Steady) := by
  obtain ⟨hw, hp⟩ := writeAllFrom_spec h
  exact ⟨hw, fun hs hf => hs (hp _ hf)⟩

/-- The loop ends well if no write fails. -/
theorem exists_writeAllFrom (written : List β) {plan : List Acceptance} (hplan : Acceptance.failed ∉ plan) (buf : List β) :
    ∃ sink, writeAllFrom written plan buf = some sink := by
  induction plan generalizing written buf with
  | nil => cases buf <;> exact ⟨_, rfl⟩
  | cons a plan ih =>
    rw [List.mem_cons, not_or] at hplan
    cases buf with
    | nil => exact ⟨_, rfl⟩
    | cons b bs =>
      cases a with
      | interrupted => exact ih written hplan.2 (b :: bs)
      | failed => exact absurd rfl hplan.1
      | taken more => exact ih _ hplan.2 _

theorem Steady.exists_writeAll {sink : Sink β} (h : sink.Steady) (buf : List β) : ∃ sink', sink.writeAll buf = some sink' :=
  exists_writeAllFrom sink.written h buf

end Sink

end ByteStream
