import Mathlib.Logic.Function.Basic
import Anylinuxfs.Lib.Buffer
import Anylinuxfs.Text

/-!
# Reading a remote image

`HTTPReaderAt` and `CachedReaderAt` of `remoteiso.go`: parts of a file are requested from a server in whole blocks, which are kept.
Offsets are integers without bounds; those of a call that stays in the file exceed its length by one block at most.
-/

namespace Anylinuxfs

namespace RemoteIso

/-! ## Requests -/

/-- The errors of a read. -/
inductive ReadError where
  /-- The request could not be made, or there was no answer. -/
  | noResponse
  /-- "unexpected HTTP status: %s" -/
  | unexpectedStatus (statusCode : Nat)
  /-- `io.EOF` -/
  | eof
  /-- `io.ErrUnexpectedEOF` -/
  | unexpectedEof
  /-- The body could not be read on, for instance after the timeout of the client. -/
  | brokenBody
  deriving DecidableEq, Repr

/-- What comes of a request. Behind the bytes of a body stands the error that its reader ends with: `io.EOF`, `io.ErrUnexpectedEOF`
after a connection that is closed too early, or another. -/
inductive Response where
  | none
  | answered (statusCode : Nat) (body : Bytes) (bodyErr : ReadError)
  deriving DecidableEq, Repr

/-- The answers of the server, by the number of the requests before, for the bounds in `Range: bytes=<off>-<end>`. -/
abbrev Server := Nat → Int → Int → Response

/-- `io.ReadFull`: the buffer after it, the number of bytes and the error. -/
def readFull (body : Bytes) (bodyErr : ReadError) (p : Bytes) : Bytes × Nat × Option ReadError :=
  let n := min body.length p.length
  (body.take n ++ p.drop n, n,
    if p.length ≤ body.length then .none
    else if n ≠ 0 ∧ bodyErr = .eof then some .unexpectedEof
    else some bodyErr)

/-- `HTTPReaderAt.ReadAt`. -/
def httpReadAt (server : Server) (requests : Nat) (p : Bytes) (off : Int) : Bytes × Nat × Option ReadError :=
  let last := off + p.length - 1
  match server requests off last with
  | .none => (p, 0, some .noResponse)
  | .answered statusCode body bodyErr =>
    if statusCode ≠ 206 ∧ statusCode ≠ 200 then (p, 0, some (.unexpectedStatus statusCode))
    else
      match readFull body bodyErr p with
      -- a short read at the end of the file is allowed
      | (p, n, some .unexpectedEof) => (p, n, some .eof)
      | (p, n, err) => (p, n, err)

/-! ## Blocks -/

/-- `CachedReaderAt`, with the number of the requests that were made. -/
structure CachedReaderAt where
  blockSize : Nat
  blockSize_pos : 0 < blockSize
  cache : Int → Option Bytes
  requests : Nat

/-- A reader that has read nothing. -/
def CachedReaderAt.new (blockSize : Nat) (blockSize_pos : 0 < blockSize) : CachedReaderAt where
  blockSize
  blockSize_pos
  cache := fun _ => none
  requests := 0

/-- `c.Cache[blk] = buf`, after a request. -/
def CachedReaderAt.store (c : CachedReaderAt) (blk : Int) (buf : Bytes) : CachedReaderAt :=
  { c with cache := Function.update c.cache blk (some buf), requests := c.requests + 1 }

/-- The block that a turn of the loop reads from, or an error. -/
def getBlock (server : Server) (c : CachedReaderAt) (blk : Int) : CachedReaderAt × Except ReadError Bytes :=
  match c.cache blk with
  | some data => (c, .ok data)
  | none =>
    let (buf, _, err) := httpReadAt server c.requests (List.replicate c.blockSize 0) (blk * c.blockSize)
    match err with
    | none | some .eof => (c.store blk buf, .ok buf)
    | some err => ({ c with requests := c.requests + 1 }, .error err)

/-- What a turn copies: the buffer and the number of bytes, or a panic. -/
def copyBlock (blockSize : Nat) (p : Bytes) (off blk : Int) (data : Bytes) : Option (Bytes × Int) := do
  let blockOff := blk * blockSize
  let blockStart := max off blockOff
  let blockEnd := min (off + p.length) (blockOff + data.length)
  let src ← Buffer.slice data (blockStart - blockOff) (blockEnd - blockOff)
  let p ← Buffer.copyTo p (blockStart - off) (blockEnd - off) src
  pure (p, blockEnd - blockStart)

/-- How a call ends. -/
inductive Outcome where
  | returned (read : Int) (err : Option ReadError)
  | panicked
  deriving DecidableEq, Repr

/-- The loop of `CachedReaderAt.ReadAt`, over as many blocks as are left. -/
def readBlocks (server : Server) (off : Int) : Nat → Int → Int → CachedReaderAt → Bytes → CachedReaderAt × Bytes × Outcome
  | 0, _, read, c, p => (c, p, .returned read none)
  | left + 1, blk, read, c, p =>
    match getBlock server c blk with
    | (c, .error err) => (c, p, .returned read (some err))
    | (c, .ok data) =>
      match copyBlock c.blockSize p off blk data with
      | none => (c, p, .panicked)
      | some (p, n) => readBlocks server off left (blk + 1) (read + n) c p

/-- `CachedReaderAt.ReadAt`: the reader, the buffer and how the call ends. Division is rounded towards zero. -/
def readAt (server : Server) (c : CachedReaderAt) (p : Bytes) (off : Int) : CachedReaderAt × Bytes × Outcome :=
  let startBlock := off.tdiv c.blockSize
  let endBlock := (off + p.length - 1).tdiv c.blockSize
  readBlocks server off (endBlock + 1 - startBlock).toNat startBlock 0 c p

/-! ## Calls -/

/-- A call of `ReadAt`. -/
structure Call where
  p : Bytes
  off : Int

/-- What comes of a call. -/
structure Reply where
  p : Bytes
  outcome : Outcome

/-- Calls one after another. -/
def readCalls (server : Server) (c : CachedReaderAt) : List Call → CachedReaderAt × List Reply
  | [] => (c, [])
  | call :: calls =>
    let (c, p, outcome) := readAt server c call.p call.off
    let (c, replies) := readCalls server c calls
    (c, ⟨p, outcome⟩ :: replies)

/-! ## What is asked of the reader -/

/-- The bytes of a file in a range, cut at its end. -/
def rangeOf (file : Bytes) (off last : Int) : Bytes := (file.drop off.toNat).take (last + 1 - off).toNat

/-- An answer to a request for a range of a file: an error, also one in the middle of the body, or the status 206 and the bytes.
A body that is cut short without an error of its own is no such answer: the reader takes it for the end of the file. -/
def Answers (file : Bytes) (off last : Int) : Response → Prop
  | .none => True
  | .answered statusCode body bodyErr =>
    statusCode = 200 ∨ statusCode = 206 →
      statusCode = 206 ∧ body <+: rangeOf file off last ∧ (bodyErr ≠ .brokenBody → body = rangeOf file off last)

/-- What a server may send whose connection may be cut and that may ignore the range: an error, the status 206 and a beginning of the
range, or the status 200 and a beginning of the file. -/
def Sends (file : Bytes) (off last : Int) : Response → Prop
  | .none => True
  | .answered statusCode body _ => (statusCode = 206 → body <+: rangeOf file off last) ∧ (statusCode = 200 → body <+: file)

/-- A server that sends nothing else. -/
def SendsPart (file : Bytes) (server : Server) : Prop := ∀ requests off last, Sends file off last (server requests off last)

/-- The body that fills a block, if the reader takes the reply for one. -/
def accepted (blockSize : Nat) : Response → Option Bytes
  | .none => none
  | .answered statusCode body bodyErr =>
    if (statusCode = 206 ∨ statusCode = 200) ∧ (blockSize ≤ body.length ∨ bodyErr = .eof ∨ bodyErr = .unexpectedEof) then some body
    else none

/-- A reply that is not accepted for a block, or has the bytes of the file: where the body has ended, the file has zeros or nothing. -/
def Harmless (file : Bytes) (blockSize b : Nat) (response : Response) : Prop :=
  ∀ body, accepted blockSize response = some body → ∀ i < blockSize, body.getD i 0 = file.getD (b * blockSize + i) 0

/-- The reply of the server to the request for a block. -/
def blockReply (server : Server) (requests blockSize b : Nat) : Response :=
  server requests ((b * blockSize : Nat) : Int) ((b * blockSize : Nat) + blockSize - 1)

/-- A server that has the file. -/
def Serves (file : Bytes) (server : Server) : Prop := ∀ requests off last, Answers file off last (server requests off last)

/-- A block of the file, padded with zeros. -/
def fileBlock (file : Bytes) (blockSize : Nat) (blk : Nat) : Bytes := Buffer.paddedBlock file blockSize 0 blk

/-- Every block that is kept is that of the file. -/
def Consistent (file : Bytes) (c : CachedReaderAt) : Prop :=
  ∀ blk data, c.cache blk = some data → ∃ b : Nat, blk = b ∧ data = fileBlock file c.blockSize b

/-- The call stays in the file. -/
def Call.InFile (file : Bytes) (call : Call) : Prop := 0 ≤ call.off ∧ call.off + call.p.length ≤ file.length

/-- A call does not panic, and if it succeeds, the buffer has what the file has at the offset. -/
structure Right (file : Bytes) (call : Call) (reply : Reply) : Prop where
  returns : reply.outcome ≠ .panicked
  bytes : ∀ read, reply.outcome = .returned read none →
    read = call.p.length ∧ reply.p = (file.drop call.off.toNat).take call.p.length

/-- A reader that has read nothing, of a server that has been asked before. -/
def CachedReaderAt.fresh (blockSize : Nat) (blockSize_pos : 0 < blockSize) (requests : Nat) : CachedReaderAt where
  blockSize
  blockSize_pos
  cache := fun _ => none
  requests

/-- Whatever the server has been asked before, a reader that has read nothing keeps no wrong byte and returns none. -/
def ReadsTrue (file : Bytes) (server : Server) (blockSize : Nat) (hpos : 0 < blockSize) : Prop :=
  ∀ requests calls, (∀ call ∈ calls, Call.InFile file call) →
    Consistent file (readCalls server (.fresh blockSize hpos requests) calls).1 ∧
      List.Forall₂ (Right file) calls (readCalls server (.fresh blockSize hpos requests) calls).2

end RemoteIso

end Anylinuxfs
