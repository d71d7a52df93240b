import Anylinuxfs.Lib.ByteStream
import Anylinuxfs.Text

/-!
# Messages between processes

`ipc.rs` and `vmctrl.rs` of `common-utils`: a message is the RON text of a value behind its length, four bytes with the highest
first. The RON encoder and decoder are parameters (`ser`, `de`).
-/

namespace Anylinuxfs

open ByteStream

namespace Ipc

/-- `MAX_MSG_SIZE`: 1 MiB. -/
def maxMsgSize : Nat := 1048576

/-- `validate_msg_size`. -/
def validateMsgSize (size : Nat) (direction : String) : Except Bytes Unit := do
  if size = 0 then throw (bytes direction ++ bytes " size is zero")
  if size > maxMsgSize then throw (bytes direction ++ bytes " size is too large")

/-- `u32::to_be_bytes`. -/
def toBeBytes (n : Nat) : Bytes :=
  [UInt8.ofNat (n / 2 ^ 24), UInt8.ofNat (n / 2 ^ 16), UInt8.ofNat (n / 2 ^ 8), UInt8.ofNat n]

/-- `u32::from_be_bytes`. -/
def fromBeBytes (buf : Bytes) : Nat := buf.foldl (fun n b => 256 * n + b.toNat) 0

variable {α : Type}

/-- The frame of the next message in `read_msg`: the length, its check, and the bytes of the text. -/
def readFrame (direction : String) (source : Source UInt8) : Except Bytes (Bytes × Source UInt8) := do
  match source.readExact 4 with
  | none => throw (bytes "Failed to read " ++ bytes direction ++ bytes " size")
  | some (sizeBuf, source) =>
    let size := fromBeBytes sizeBuf
    validateMsgSize size direction
    match source.readExact size with
    | none => throw (bytes "Failed to read " ++ bytes direction ++ bytes " payload")
    | some (payload, source) => pure (payload, source)

/-- `read_msg`. -/
def readMsg (de : Bytes → Option α) (direction : String) (source : Source UInt8) : Except Bytes (α × Source UInt8) := do
  let (payload, source) ← readFrame direction source
  match de payload with
  | none => throw (bytes "Failed to parse " ++ bytes direction)
  | some msg => pure (msg, source)

/-- `write_msg`. The length is cast to 32 bits. -/
def writeMsg (ser : α → Option Bytes) (direction : String) (sink : Sink UInt8) (msg : α) : Except Bytes (Sink UInt8) :=
  match ser msg with
  | none => throw (bytes "Failed to serialize " ++ bytes direction)
  | some text =>
    match sink.writeAll (toBeBytes (text.length % 2 ^ 32)) with
    | none => throw (bytes "Failed to write " ++ bytes direction ++ bytes " size")
    | some sink =>
      match sink.writeAll text with
      | none => throw (bytes "Failed to write " ++ bytes direction ++ bytes " payload")
      | some sink => pure sink

/-- Write messages one after another. -/
def writeMsgs (ser : α → Option Bytes) (direction : String) (sink : Sink UInt8) (msgs : List α) : Except Bytes (Sink UInt8) :=
  msgs.foldlM (writeMsg ser direction) sink

/-- Read a number of messages one after another. -/
def readMsgs (de : Bytes → Option α) (direction : String) : Nat → Source UInt8 → Except Bytes (List α × Source UInt8)
  | 0, source => pure ([], source)
  | n + 1, source => do
    let (msg, source) ← readMsg de direction source
    let (msgs, source) ← readMsgs de direction n source
    pure (msg :: msgs, source)

end Ipc

/-! ## The messages of the control socket -/

namespace VmCtrl

/-- `vmctrl::Request`. -/
inductive Request where
  | quit | subscribeEvents
  deriving DecidableEq, Repr

/-- `vmctrl::Report`. -/
structure Report where
  kernelLog : Bytes
  deriving DecidableEq, Repr

/-- `vmctrl::Response`. -/
inductive Response where
  | ack
  | reportEvent (report : Report)
  deriving DecidableEq, Repr

/-- The RON text of a request. -/
def Request.ron : Request → Bytes
  | .quit => bytes "Quit"
  | .subscribeEvents => bytes "SubscribeEvents"

/-- The request that a RON text is. -/
def Request.ofRon (text : Bytes) : Option Request :=
  if text = bytes "Quit" then some .quit
  else if text = bytes "SubscribeEvents" then some .subscribeEvents
  else none

/-- A hexadecimal digit. -/
def hexDigit (n : Nat) : UInt8 := UInt8.ofNat (if n < 10 then 0x30 + n else 0x57 + n)

/-- `std::ascii::escape_default`. -/
def escapeDefault (b : UInt8) : Bytes :=
  if b = 0x09 then bytes "\\t"
  else if b = 0x0d then bytes "\\r"
  else if b = 0x0a then bytes "\\n"
  else if b = 0x27 ∨ b = 0x22 ∨ b = 0x5c then [0x5c, b]
  else if 0x20 ≤ b ∧ b ≤ 0x7e then [b]
  else bytes "\\x" ++ [hexDigit (b.toNat / 16), hexDigit (b.toNat % 16)]

/-- The RON text of a response; bytes are a byte string literal. -/
def Response.ron : Response → Bytes
  | .ack => bytes "Ack"
  | .reportEvent report => bytes "ReportEvent((kernel_log:b\"" ++ report.kernelLog.flatMap escapeDefault ++ bytes "\"))"

end VmCtrl

end Anylinuxfs
