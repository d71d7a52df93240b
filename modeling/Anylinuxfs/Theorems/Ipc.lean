import Anylinuxfs.Lemmas.Ipc

/-!
# Framing

Messages of at most 1 MiB that are written one after another are read back in order, however the bytes are delivered, and
nothing behind them is touched (`readMsgs_writeMsgs`). The limit is checked by the reader only: a message that is written is
accepted by the reader exactly when its text is not empty and at most 1 MiB long (`sizesAgree_iff`), which the report with a
long kernel log is not (`sizesAgree_false`).
-/

namespace Anylinuxfs

open ByteStream

namespace Ipc

variable {α : Type}

/-! ## Sequences of messages -/

/-- Messages with texts within the limits, written one after another, are read back in order, however the bytes are delivered
and whatever follows them. -/
theorem readMsgs_writeMsgs (ser : α → Option Bytes) (de : Bytes → Option α) (hron : ∀ msg text, ser msg = some text → de text = some msg)
    (direction : String) (msgs : List α)
    (hsize : ∀ msg ∈ msgs, ∃ text, ser msg = some text ∧ 1 ≤ text.length ∧ text.length ≤ maxMsgSize) (sink : Sink UInt8)
    (hsink : sink.Steady) :
    ∃ sink' frames, writeMsgs ser direction sink msgs = .ok sink' ∧ sink'.written = sink.written ++ frames ∧
      ∀ (following : Bytes) (source : Source UInt8), source.bytes = frames ++ following →
        ∃ source', readMsgs de direction msgs.length source = .ok (msgs, source') ∧ source'.bytes = following := by
  induction msgs generalizing sink with
  | nil => exact ⟨sink, [], rfl, (List.append_nil _).symm, fun _ source h => ⟨source, rfl, h⟩⟩
  | cons msg rest ih =>
    obtain ⟨text, hser, hpos, hmax⟩ := hsize msg List.mem_cons_self
    obtain ⟨sink₁, hwrite⟩ := exists_writeMsg direction hsink hser
    obtain ⟨text', hser', hw₁, hs₁⟩ := writeMsg_spec hwrite
    obtain rfl : text = text' := Option.some.inj (hser.symm.trans hser')
    obtain ⟨sink₂, frames, hrest, hw₂, hread⟩ := ih (fun m hm => hsize m (List.mem_cons_of_mem _ hm)) sink₁ (hs₁ hsink)
    refine ⟨sink₂, frame text ++ frames, ?_, ?_, fun following source h => ?_⟩
    · simp only [writeMsgs, List.foldlM_cons, hwrite, bind, Except.bind]
      exact hrest
    · rw [hw₂, hw₁, List.append_assoc]
    · rw [List.append_assoc] at h
      obtain ⟨source₁, hframe, h₁⟩ := readFrame_frame direction hpos hmax h
      obtain ⟨source₂, hmsgs, h₂⟩ := hread following source₁ h₁
      refine ⟨source₂, ?_, h₂⟩
      simp only [readMsgs, readMsg, List.length_cons, hframe, hron msg text hser, hmsgs, bind, Except.bind, pure, Except.pure]

/-- Two requests, written in short writes. -/
theorem readMsgs_two_requests :
    ∃ sink' frames, writeMsgs (fun r => some (VmCtrl.Request.ron r)) "request" ⟨[], [.taken 2, .interrupted, .taken 0]⟩
        [.subscribeEvents, .quit] = .ok sink' ∧ sink'.written = [] ++ frames ∧
      ∀ (following : Bytes) (source : Source UInt8), source.bytes = frames ++ following →
        ∃ source', readMsgs VmCtrl.Request.ofRon "request" 2 source = .ok ([.subscribeEvents, .quit], source') ∧
          source'.bytes = following := by
  refine readMsgs_writeMsgs (fun r => some (VmCtrl.Request.ron r)) VmCtrl.Request.ofRon ?_ "request" [.subscribeEvents, .quit]
    ?_ ⟨[], [.taken 2, .interrupted, .taken 0]⟩ (by decide)
  · rintro msg text ⟨⟩
    cases msg <;> decide
  · intro msg _
    cases msg <;> exact ⟨_, rfl, by decide, by decide⟩

/-! ## Writer and reader -/

/-- If the message is written, the header is the length of the payload, and the reader does not reject the frame. -/
def SizesAgree (ser : α → Option Bytes) (direction : String) (msg : α) : Prop :=
  ∀ sink sink', writeMsg ser direction sink msg = .ok sink' →
    ∃ header payload, ser msg = some payload ∧ sink'.written = sink.written ++ (header ++ payload) ∧ header.length = 4 ∧
      fromBeBytes header = payload.length ∧
      ∀ source : Source UInt8, source.bytes = header ++ payload → ∃ source', readFrame direction source = .ok (payload, source')

/-- Writer and reader agree on a message exactly when its text is within the limits of the reader. -/
theorem sizesAgree_iff (ser : α → Option Bytes) (direction : String) (msg : α) :
    SizesAgree ser direction msg ↔ ∀ text, ser msg = some text → 1 ≤ text.length ∧ text.length ≤ maxMsgSize := by
  constructor
  · intro h text hser
    obtain ⟨sink', hwrite⟩ := exists_writeMsg direction (show ({} : Sink UInt8).Steady by decide) hser
    obtain ⟨header, payload, hser', -, hlen, hheader, hread⟩ := h _ _ hwrite
    obtain rfl : text = payload := Option.some.inj (hser.symm.trans hser')
    refine Classical.byContradiction fun hsize => ?_
    have hbytes : (Source.putBack (header ++ text) []).bytes = header ++ text := by
      rw [Source.bytes_putBack]
      exact List.append_nil _
    obtain ⟨source', hok⟩ := hread _ hbytes
    rw [← hheader] at hsize
    obtain ⟨error, herror⟩ := readFrame_rejects direction hlen hsize hbytes
    rw [herror] at hok
    cases hok
  · intro h sink sink' hwrite
    obtain ⟨text, hser, hw, -⟩ := writeMsg_spec hwrite
    obtain ⟨hpos, hmax⟩ := h text hser
    refine ⟨toBeBytes (text.length % 2 ^ 32), text, hser, hw, rfl, ?_, fun source hsource => ?_⟩
    · rw [fromBeBytes_toBeBytes]
      unfold maxMsgSize at hmax
      omega
    · have hbytes : source.bytes = frame text ++ [] := by
        rw [hsource, List.append_nil, frame]
      obtain ⟨source', hframe, -⟩ := readFrame_frame direction hpos hmax hbytes
      exact ⟨source', hframe⟩

/-- Every byte of a kernel log takes at least one byte in the text. -/
theorem length_le_flatMap_escapeDefault (log : Bytes) : log.length ≤ (log.flatMap VmCtrl.escapeDefault).length := by
  induction log with
  | nil => exact Nat.le_refl _
  | cons b rest ih =>
    have hb : 1 ≤ (VmCtrl.escapeDefault b).length := by
      unfold VmCtrl.escapeDefault
      split
      · decide
      · split
        · decide
        · split
          · decide
          · split
            · exact Nat.le_succ 1
            · split
              · exact Nat.le_refl 1
              · rw [List.length_append]
                exact Nat.le_add_left_of_le (Nat.le_succ 1)
    rw [List.flatMap_cons, List.length_append, List.length_cons]
    omega

/-- A report with a kernel log of 1 MiB is written, but no reader accepts it. -/
theorem sizesAgree_false :
    ¬SizesAgree (fun r => some (VmCtrl.Response.ron r)) "response" (.reportEvent ⟨List.replicate 1048576 0x61⟩) := by
  rw [sizesAgree_iff]
  intro h
  obtain ⟨-, hmax⟩ := h _ rfl
  have hlog := length_le_flatMap_escapeDefault (List.replicate 1048576 0x61)
  rw [List.length_replicate] at hlog
  simp only [VmCtrl.Response.ron, List.length_append] at hmax
  have hhead : (bytes "ReportEvent((kernel_log:b\"").length = 26 := by decide
  unfold maxMsgSize at hmax
  omega

end Ipc

end Anylinuxfs
