import Anylinuxfs.Ipc
import Anylinuxfs.Lib.Reach

/-!
# The API socket

`UnixHandler::serve` and `UnixClient::make_request` (`api.rs`), with `collect_active_instances` and the removal of stale sockets
in `run_mount` (`cmd_mount.rs`): the server of one instance and the client of another mount. A step is one call of one of them.
`UnixListener::bind` is three calls, of which bind(2) creates the file and listen(2) lets clients connect. What a read delivers
and what becomes of a write are chosen at each step.
-/

namespace Anylinuxfs

open ByteStream

namespace ApiSocket

/-- `Request`. -/
inductive Request where
  | getConfig
  deriving DecidableEq, Repr

/-- The RON text of a request. -/
def Request.ron : Request → Bytes
  | .getConfig => bytes "GetConfig"

/-- The RON encoder and decoder of the two programs, which may be of different versions: how the server understands a request and
writes its `RuntimeInfo`, and how the client reads that. -/
structure Codec (ι : Type) where
  deRequest : Bytes → Option Request
  serResponse : ι → Option Bytes
  deResponse : Bytes → Option ι

/-- The thread of `serve_info`. -/
inductive Server where
  | starting | bound | listening | accepting | serving | replying | returned
  deriving DecidableEq, Repr

/-- Whether a connection is taken. -/
def Server.listens : Server → Bool
  | .listening | .accepting | .serving | .replying => true
  | .starting | .bound | .returned => false

/-- Who owns the file of the socket. -/
inductive Owner where
  | creator | invoker
  deriving DecidableEq, Repr

/-- The connection of the client, as the server has it. -/
inductive Conn where
  | unmade | queued | opened | closed
  deriving DecidableEq, Repr

/-- The server's end goes, with everything that is open or waits to be accepted. -/
def Conn.hangUp : Conn → Conn
  | .unmade => .unmade
  | .queued | .opened | .closed => .closed

/-- The client, as far as this socket goes: `read_dir` is to come, the socket is in the list, the connection is made, the request
is written, and then the instance is active or the socket is stale, until the removal loop is over. -/
inductive Client (ι : Type) where
  | before
  | discovered
  | connected
  | requested
  | active (info : ι)
  | stale
  | finished
  deriving DecidableEq, Repr

end ApiSocket

open ApiSocket

/-- The instance with its server, the client, and the connection between them. `unlinkedLive` is whether the removal loop has
removed the socket while the instance was there. -/
structure ApiSys (ι : Type) where
  info : ι
  live : Bool := true
  server : Server := .starting
  file : Bool := false
  owner : Owner := .creator
  client : Client ι := .before
  conn : Conn := .unmade
  toServer : Bytes := []
  toClient : Bytes := []
  unlinkedLive : Bool := false

namespace ApiSys

variable {ι : Type} [DecidableEq ι] (codec : Codec ι) (permitted : Owner → Bool)

/-! ## The instance -/

/-- `UnixListener::bind` up to bind(2). -/
def bind (s : ApiSys ι) (ok : Bool) : Option (ApiSys ι) :=
  if s.server = .starting then
    if ok then some { s with server := .bound, file := true } else some { s with server := .returned }
  else none

/-- The end of `UnixListener::bind`: listen(2). -/
def listen (s : ApiSys ι) : Option (ApiSys ι) :=
  if s.server = .bound then some { s with server := .listening } else none

/-- `chown_to_invoker`; if it fails, `serve` returns and the listener is dropped. -/
def chown (s : ApiSys ι) (ok : Bool) : Option (ApiSys ι) :=
  if s.server = .listening then
    if ok then some { s with server := .accepting, owner := .invoker }
    else some { s with server := .returned, conn := s.conn.hangUp }
  else none

/-- The loop over `listener.incoming()` takes the connection. -/
def accept (s : ApiSys ι) : Option (ApiSys ι) :=
  if s.server = .accepting ∧ s.conn = .queued then some { s with server := .serving, conn := .opened } else none

/-- A read delivers the bytes that were sent, or fails. -/
def Delivers (source : Source UInt8) (sent : Bytes) : Prop := source.bytes = sent ∨ source.fails = true

instance (source : Source UInt8) (sent : Bytes) : Decidable (Delivers source sent) := inferInstanceAs (Decidable (_ ∨ _))

/-- `Handler::read_request`; after an error the connection is dropped. -/
def readRequest (s : ApiSys ι) (source : Source UInt8) : Option (ApiSys ι) :=
  if s.server = .serving ∧ s.client ≠ .connected ∧ Delivers source s.toServer then
    match Ipc.readMsg codec.deRequest "request" source with
    | .ok (.getConfig, _) => some { s with server := .replying }
    | .error _ => some { s with server := .accepting, conn := .closed }
  else none

/-- `Handler::write_response`, and the end of the connection. -/
def writeResponse (s : ApiSys ι) (plan : List Acceptance) : Option (ApiSys ι) :=
  if s.server = .replying then
    match Ipc.writeMsg codec.serResponse "response" ⟨s.toClient, plan⟩ s.info with
    | .ok sink => some { s with server := .accepting, conn := .closed, toClient := sink.written }
    | .error _ => some { s with server := .accepting, conn := .closed }
  else none

/-- The process of the instance ends; a process that is not killed removes its socket. -/
def exit (s : ApiSys ι) (killed : Bool) : ApiSys ι :=
  { s with live := false, server := .returned, conn := s.conn.hangUp, file := s.file && killed }

/-! ## The client -/

/-- `discover_api_sockets`. -/
def discover (s : ApiSys ι) : Option (ApiSys ι) :=
  if s.client = .before then
    if s.file then some { s with client := .discovered } else some { s with client := .finished }
  else none

/-- `UnixStream::connect`: the file must be there, with a server that listens, and the client may use it. -/
def connect (s : ApiSys ι) : Option (ApiSys ι) :=
  if s.client = .discovered then
    if s.file = true ∧ s.server.listens = true ∧ permitted s.owner = true then
      some { s with client := .connected, conn := .queued }
    else some { s with client := .stale }
  else none

/-- `Client::write_request`. -/
def writeRequest (s : ApiSys ι) (plan : List Acceptance) : Option (ApiSys ι) :=
  if s.client = .connected then
    if s.conn = .closed then some { s with client := .stale }
    else
      match Ipc.writeMsg (fun request => some (Request.ron request)) "request" ⟨[], plan⟩ .getConfig with
      | .ok sink => some { s with client := .requested, toServer := sink.written }
      | .error _ => some { s with client := .stale }
  else none

/-- `Client::read_response`: it waits for the answer or the end of the connection. -/
def readResponse (s : ApiSys ι) (source : Source UInt8) : Option (ApiSys ι) :=
  if s.client = .requested ∧ s.conn = .closed ∧ Delivers source s.toClient then
    match Ipc.readMsg codec.deResponse "response" source with
    | .ok (info, _) => some { s with client := .active info }
    | .error _ => some { s with client := .stale }
  else none

/-- The removal loop of `run_mount`. -/
def removeStale (s : ApiSys ι) : Option (ApiSys ι) :=
  match s.client with
  | .stale => some { s with client := .finished, file := false, unlinkedLive := s.unlinkedLive || s.live }
  | .active _ => some { s with client := .finished }
  | _ => none

/-! ## The system -/

/-- What may happen. -/
inductive Act (ι : Type) where
  | bind (ok : Bool)
  | listen
  | chown (ok : Bool)
  | accept
  | readRequest (source : Source UInt8)
  | writeResponse (plan : List Acceptance)
  /-- the instance changes its `RuntimeInfo` -/
  | update (info : ι)
  | exit (killed : Bool)
  | discover
  | connect
  | writeRequest (plan : List Acceptance)
  | readResponse (source : Source UInt8)
  | removeStale

/-- One step. -/
def step (s : ApiSys ι) : Act ι → Option (ApiSys ι)
  | .bind ok => s.bind ok
  | .listen => s.listen
  | .chown ok => s.chown ok
  | .accept => s.accept
  | .readRequest source => s.readRequest codec source
  | .writeResponse plan => s.writeResponse codec plan
  | .update info => some { s with info := info }
  | .exit killed => some (s.exit killed)
  | .discover => s.discover
  | .connect => s.connect permitted
  | .writeRequest plan => s.writeRequest plan
  | .readResponse source => s.readResponse codec source
  | .removeStale => s.removeStale

/-! ## What is asked of the clean-up -/

/-- A socket is only taken for stale when its instance is gone, and the removal loop has not removed the socket of an instance
that was there. -/
structure SafeCleanup (s : ApiSys ι) : Prop where
  staleGone : s.client = .stale → s.live = false
  noneUnlinked : s.unlinkedLive = false

/-- The client reads the `RuntimeInfo` that the server writes: it has a text, the text is within the limits of a message, and the
client's version understands it. -/
def Readable (codec : Codec ι) (info : ι) : Prop :=
  ∃ text ∈ codec.serResponse info, 1 ≤ text.length ∧ text.length ≤ Ipc.maxMsgSize ∧ (codec.deResponse text).isSome = true

instance (codec : Codec ι) (info : ι) : Decidable (Readable codec info) := inferInstanceAs (Decidable (∃ _ ∈ _, _))

/-- A step beside an instance that is there goes well: no connection before listen(2) has returned, or as a user that may not
use the socket; a request that the server understands; a `RuntimeInfo` that the client can read; and no call that fails. -/
def GoesWell (s : ApiSys ι) : Act ι → Prop
  | .chown ok => s.live = true → ok = true
  | .connect => s.live = true → s.server.listens = true ∧ permitted s.owner = true
  | .readRequest source => s.live = true →
      (codec.deRequest (Request.ron .getConfig)).isSome = true ∧ source.fails = false
  | .writeResponse plan => s.live = true → Readable codec s.info ∧ .failed ∉ plan
  | .writeRequest plan => s.live = true → .failed ∉ plan
  | .readResponse source => s.live = true → source.fails = false
  | _ => True

instance (s : ApiSys ι) : (a : Act ι) → Decidable (s.GoesWell codec permitted a)
  | .chown _ | .connect | .readRequest _ | .writeResponse _ | .writeRequest _ | .readResponse _ =>
    inferInstanceAs (Decidable (_ → _))
  | .bind _ | .listen | .accept | .update _ | .exit _ | .discover | .removeStale => inferInstanceAs (Decidable True)

end ApiSys

end Anylinuxfs
