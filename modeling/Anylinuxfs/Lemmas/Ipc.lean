import Anylinuxfs.Ipc

/-!
# Lemmas about single messages

What `write_msg` writes is a frame, and `read_msg` reads the text of a frame within the limits, however it is delivered.
-/

namespace Anylinuxfs

open ByteStream

namespace Ipc

variable {α : Type} {ser : α → Option Bytes} {de : Bytes → Option α}

/-! ## The header -/

@[simp] theorem length_toBeBytes (n : Nat) : (toBeBytes n).length = 4 := rfl

/-- The header holds the length modulo 2³². -/
theorem fromBeBytes_toBeBytes (n : Nat) : fromBeBytes (toBeBytes n) = n % 2 ^ 32 := by
  simp only [fromBeBytes, toBeBytes, List.foldl_cons, List.foldl_nil, UInt8.toNat_ofNat']
  omega

theorem validateMsgSize_eq_ok_iff (size : Nat) (direction : String) :
    validateMsgSize size direction = .ok () ↔ 1 ≤ size ∧ size ≤ maxMsgSize := by
  unfold validateMsgSize
  by_cases hzero : size = 0
  · simp [hzero, throw, throwThe, MonadExceptOf.throw, bind, Except.bind]
  · by_cases hlarge : size > maxMsgSize
    · simp [hzero, hlarge, throw, throwThe, MonadExceptOf.throw]
    · simp only [hzero, hlarge, if_false]
      exact ⟨fun _ => ⟨Nat.one_le_iff_ne_zero.2 hzero, Nat.not_lt.1 hlarge⟩, fun _ => rfl⟩

/-! ## One message -/

/-- The bytes of a message: the header and the text. -/
def frame (text : Bytes) : Bytes := toBeBytes (text.length % 2 ^ 32) ++ text

/-- What is written if the message is written at all. -/
theorem writeMsg_spec {direction : String} {sink sink' : Sink UInt8} {msg : α}
    (h : writeMsg ser direction sink msg = .ok sink') :
    ∃ text, ser msg = some text ∧ sink'.written = sink.written ++ frame text ∧ (sink.Steady → sink'.Steady) := by
  unfold writeMsg at h
  cases hser : ser msg with
  | none => simp [hser, throw, throwThe, MonadExceptOf.throw] at h
  | some text =>
    cases hsize : sink.writeAll (toBeBytes (text.length % 2 ^ 32)) with
    | none =>
      simp only [hser, hsize] at h
      cases h
    | some sink₁ =>
      cases hpayload : sink₁.writeAll text with
      | none =>
        simp only [hser, hsize, hpayload] at h
        cases h
      | some sink₂ =>
        simp only [hser, hsize, hpayload] at h
        cases h
        obtain ⟨hw₁, hs₁⟩ := Sink.writeAll_spec hsize
        obtain ⟨hw₂, hs₂⟩ := Sink.writeAll_spec hpayload
        refine ⟨text, rfl, ?_, fun hs => hs₂ (hs₁ hs)⟩
        rw [hw₂, hw₁, List.append_assoc, frame]

/-- A message that has a text is written if no write fails. -/
theorem exists_writeMsg (direction : String) {sink : Sink UInt8} (hs : sink.Steady) {msg : α} {text : Bytes}
    (hser : ser msg = some text) : ∃ sink', writeMsg ser direction sink msg = .ok sink' := by
  obtain ⟨sink₁, hsize⟩ := hs.exists_writeAll (toBeBytes (text.length % 2 ^ 32))
  obtain ⟨sink₂, hpayload⟩ := ((Sink.writeAll_spec hsize).2 hs).exists_writeAll text
  refine ⟨sink₂, ?_⟩
  simp only [writeMsg, hser, hsize, hpayload]
  rfl

/-- A text within the limits is read from its frame, however the bytes are delivered. -/
theorem readFrame_frame (direction : String) {text following : Bytes} {source : Source UInt8} (hpos : 1 ≤ text.length)
    (hmax : text.length ≤ maxMsgSize) (h : source.bytes = frame text ++ following) :
    ∃ source', readFrame direction source = .ok (text, source') ∧ source'.bytes = following := by
  have hsmall : text.length % 2 ^ 32 = text.length := by
    unfold maxMsgSize at hmax
    omega
  rw [frame, List.append_assoc] at h
  obtain ⟨source₁, hsize, h₁⟩ := Source.readExact_of_bytes (length_toBeBytes _) h
  obtain ⟨source₂, hpayload, h₂⟩ := Source.readExact_of_bytes rfl h₁
  have hheader : fromBeBytes (toBeBytes (text.length % 2 ^ 32)) = text.length := by
    rw [fromBeBytes_toBeBytes, hsmall, hsmall]
  refine ⟨source₂, ?_, h₂⟩
  simp only [readFrame, hsize, hheader, (validateMsgSize_eq_ok_iff _ _).2 ⟨hpos, hmax⟩, hpayload, bind, Except.bind]
  rfl

/-- A header with a length outside the limits is rejected. -/
theorem readFrame_rejects (direction : String) {header payload : Bytes} {source : Source UInt8} (hlen : header.length = 4)
    (hsize : ¬(1 ≤ fromBeBytes header ∧ fromBeBytes header ≤ maxMsgSize)) (h : source.bytes = header ++ payload) :
    ∃ text, readFrame direction source = .error text := by
  obtain ⟨source₁, hread, -⟩ := Source.readExact_of_bytes hlen h
  cases hvalid : validateMsgSize (fromBeBytes header) direction with
  | ok u => exact absurd ((validateMsgSize_eq_ok_iff _ _).1 hvalid) hsize
  | error text =>
    refine ⟨text, ?_⟩
    simp only [readFrame, hread, hvalid, bind, Except.bind]

end Ipc

end Anylinuxfs
