import Anylinuxfs.ApiSocket
import Anylinuxfs.Lemmas.Ipc

/-!
# Which sockets are stale

Every error of the exchange makes a socket stale, also an error that says nothing about the server. Where none of these happens
beside an instance that is there, only sockets of instances that are gone are taken for stale and removed.
-/

namespace Anylinuxfs

open ByteStream

namespace ApiSys

open ApiSocket
open Transition (Reach Any exists_reach)

variable {ι : Type} {codec : Codec ι} {permitted : Owner → Bool} {s s' : ApiSys ι}

/-! ## Messages -/

theorem bytes_of_delivers {source : Source UInt8} {sent : Bytes} (h : Delivers source sent)
    (hok : source.fails = false) : source.bytes = sent := by
  rcases h with h | h
  · exact h
  · rw [hok] at h
    cases h

/-- A message of a text within the limits, alone in its channel, is read if its text is understood. -/
theorem exists_readMsg {α : Type} {de : Bytes → Option α} (direction : String) {text : Bytes} {source : Source UInt8}
    (hbytes : source.bytes = Ipc.frame text) (hpos : 1 ≤ text.length) (hmax : text.length ≤ Ipc.maxMsgSize)
    (hde : (de text).isSome = true) : ∃ msg source', Ipc.readMsg de direction source = .ok (msg, source') := by
  obtain ⟨msg, hmsg⟩ := Option.isSome_iff_exists.1 hde
  obtain ⟨source', hframe, -⟩ := Ipc.readFrame_frame direction hpos hmax (by rw [hbytes, List.append_nil])
  refine ⟨msg, source', ?_⟩
  simp [Ipc.readMsg, hframe, hmsg, Bind.bind, Except.bind, pure, Except.pure]

/-- A server that listens has been bound and not returned. -/
theorem listens_iff {server : Server} : server.listens = true ↔
    server = .listening ∨ server = .accepting ∨ server = .serving ∨ server = .replying := by
  cases server <;> simp [Server.listens]

/-! ## The exchange beside an instance that is there -/

/-- The server is busy with a connection. -/
def Busy (s : ApiSys ι) : Prop := s.server = .serving ∨ s.server = .replying

/-- The client's bytes are a `RuntimeInfo` that it can read. -/
def Answered (codec : Codec ι) (s : ApiSys ι) : Prop :=
  ∃ text, s.toClient = Ipc.frame text ∧ 1 ≤ text.length ∧ text.length ≤ Ipc.maxMsgSize ∧ (codec.deResponse text).isSome = true

/-- The connection waits for the server, or the server is busy with it and has not answered. -/
def Pending (s : ApiSys ι) : Prop :=
  s.toClient = [] ∧ ((s.conn = .queued ∧ (s.server = .listening ∨ s.server = .accepting)) ∨ (s.conn = .opened ∧ s.Busy))

/-- How far client and server are with each other. -/
structure Exchange (codec : Codec ι) (s : ApiSys ι) : Prop where
  file : s.client = .before ∨ s.client = .discovered → s.server ≠ .starting → s.server ≠ .returned → s.file = true
  unmade : s.client = .before ∨ s.client = .discovered → s.conn = .unmade ∧ s.toClient = []
  connected : s.client = .connected → s.Pending ∧ s.server ≠ .replying
  requested : s.client = .requested → s.toServer = Ipc.frame (Request.ron .getConfig) ∧
    (s.Pending ∨ (s.conn = .closed ∧ s.Answered codec))
  busy : s.Busy → s.conn = .opened
  ended : s.client = .finished ∨ (∃ info, s.client = .active info) → s.conn = .unmade ∨ s.conn = .closed
  notStale : s.client ≠ .stale

/-- What holds in every state. -/
structure Inv (codec : Codec ι) (s : ApiSys ι) : Prop where
  noneUnlinked : s.unlinkedLive = false
  exchange : s.live = true → s.Exchange codec

theorem Inv.safe (h : s.Inv codec) : s.SafeCleanup := by
  refine ⟨fun hstale => ?_, h.noneUnlinked⟩
  cases hl : s.live with
  | false => rfl
  | true => exact absurd hstale (h.exchange hl).notStale

theorem Exchange.bind (h : s.Exchange codec) {ok : Bool} (hs : s.bind ok = some s') : s'.Exchange codec := by
  unfold ApiSys.bind at hs
  obtain ⟨⟩ := h
  split at hs <;> cases ok <;> cases hs
  · constructor <;> grind [Busy, Pending, Answered]
  · constructor <;> grind [Busy, Pending, Answered]

theorem Exchange.listen (h : s.Exchange codec) (hs : s.listen = some s') : s'.Exchange codec := by
  unfold ApiSys.listen at hs
  obtain ⟨⟩ := h
  split at hs <;> cases hs
  constructor <;> grind [Busy, Pending, Answered]

theorem Exchange.chown (h : s.Exchange codec) (hs : s.chown true = some s') : s'.Exchange codec := by
  unfold ApiSys.chown at hs
  obtain ⟨⟩ := h
  split at hs <;> cases hs
  constructor <;> grind [Busy, Pending, Answered]

theorem Exchange.accept (h : s.Exchange codec) (hs : s.accept = some s') : s'.Exchange codec := by
  unfold ApiSys.accept at hs
  obtain ⟨⟩ := h
  split at hs <;> cases hs
  constructor <;> grind [Busy, Pending, Answered]

/-- The `RuntimeInfo` that the server writes is one that the client can read. -/
theorem Exchange.writeResponse (h : s.Exchange codec) {plan : List Acceptance} (hinfo : Readable codec s.info)
    (hplan : .failed ∉ plan) (hs : s.writeResponse codec plan = some s') : s'.Exchange codec := by
  unfold ApiSys.writeResponse at hs
  split at hs
  · rename_i hserver
    have hopened : s.conn = .opened := h.busy (.inr hserver)
    obtain ⟨text, hser, hpos, hmax, hde⟩ := hinfo
    have hsteady : Sink.Steady ⟨s.toClient, plan⟩ := hplan
    obtain ⟨sink, hwrite⟩ := Ipc.exists_writeMsg "response" hsteady hser
    obtain ⟨text', hser', hw, -⟩ := Ipc.writeMsg_spec hwrite
    obtain rfl : text = text' := Option.some.inj (hser.symm.trans hser')
    rw [hwrite] at hs
    cases hs
    obtain ⟨⟩ := h
    constructor <;> grind [Busy, Pending, Answered]
  · cases hs

theorem Exchange.removeStale (h : s.Exchange codec) (hs : s.removeStale = some s') : s'.Exchange codec := by
  unfold ApiSys.removeStale at hs
  obtain ⟨⟩ := h
  split at hs <;> cases hs
  · contradiction
  · constructor <;> grind [Busy, Pending, Answered]

theorem Inv.init (info : ι) : Inv codec { info := info } := by
  refine ⟨rfl, fun _ => ?_⟩
  constructor <;> simp [Busy]

variable [DecidableEq ι]

/-- The request that the client has written is understood. -/
theorem Exchange.readRequest (h : s.Exchange codec) {source : Source UInt8}
    (hde : (codec.deRequest (Request.ron .getConfig)).isSome = true) (hok : source.fails = false)
    (hs : s.readRequest codec source = some s') : s'.Exchange codec := by
  unfold ApiSys.readRequest at hs
  split at hs
  · rename_i hcond
    obtain ⟨hserver, hclient, hdel⟩ := hcond
    have hopened : s.conn = .opened := h.busy (.inl hserver)
    have hreq : s.client = .requested := by
      obtain ⟨⟩ := h
      cases hc : s.client <;> grind
    have hbytes : source.bytes = Ipc.frame (Request.ron .getConfig) := by
      rw [bytes_of_delivers hdel hok, (h.requested hreq).1]
    obtain ⟨⟨⟩, source', hread⟩ := exists_readMsg "request" hbytes (by decide) (by decide) hde
    rw [hread] at hs
    cases hs
    obtain ⟨⟩ := h
    constructor <;> grind [Busy, Pending, Answered]
  · cases hs

theorem Exchange.discover (h : s.Exchange codec) (hs : s.discover = some s') : s'.Exchange codec := by
  unfold ApiSys.discover at hs
  obtain ⟨⟩ := h
  split at hs
  · split at hs <;> cases hs
    · constructor <;> grind [Busy, Pending, Answered]
    · constructor <;> grind [Busy, Pending, Answered]
  · cases hs

theorem Exchange.connect (h : s.Exchange codec) (hlistens : s.server.listens = true) (howner : permitted s.owner = true)
    (hs : s.connect permitted = some s') : s'.Exchange codec := by
  unfold ApiSys.connect at hs
  obtain ⟨⟩ := h
  split at hs
  · have hfile : s.file = true := by grind [listens_iff]
    rw [if_pos ⟨hfile, hlistens, howner⟩] at hs
    rw [listens_iff] at hlistens
    cases hs
    constructor <;> grind [Busy, Pending, Answered]
  · cases hs

theorem Exchange.writeRequest (h : s.Exchange codec) {plan : List Acceptance} (hplan : .failed ∉ plan)
    (hs : s.writeRequest plan = some s') : s'.Exchange codec := by
  unfold ApiSys.writeRequest at hs
  obtain ⟨⟩ := h
  split at hs
  · have hopen : s.conn ≠ .closed := by grind [Pending]
    have hsteady : Sink.Steady (⟨[], plan⟩ : Sink UInt8) := hplan
    have hwritten : ∃ sink, Ipc.writeMsg (fun request => some (Request.ron request)) "request" ⟨[], plan⟩ .getConfig = .ok sink :=
      Ipc.exists_writeMsg "request" hsteady rfl
    obtain ⟨sink, hwrite⟩ := hwritten
    obtain ⟨text, htext, hw, -⟩ := Ipc.writeMsg_spec hwrite
    rw [if_neg hopen, hwrite] at hs
    cases htext
    cases hs
    constructor <;> grind [Busy, Pending, Answered]
  · cases hs

/-- The client reads what the server has written. -/
theorem Exchange.readResponse (h : s.Exchange codec) {source : Source UInt8} (hok : source.fails = false)
    (hs : s.readResponse codec source = some s') : s'.Exchange codec := by
  unfold ApiSys.readResponse at hs
  split at hs
  · rename_i hcond
    obtain ⟨hclient, hclosed, hdel⟩ := hcond
    have hans : s.Answered codec := by grind [Pending, Exchange]
    obtain ⟨text, htext, hpos, hmax, hde⟩ := hans
    obtain ⟨info, source', hread⟩ := exists_readMsg "response"
      ((bytes_of_delivers hdel hok).trans htext) hpos hmax hde
    rw [hread] at hs
    cases hs
    obtain ⟨⟩ := h
    constructor <;> grind [Busy, Pending, Answered]
  · cases hs

/-! ## Runs -/

/-- An instance that is gone does not come back, and the removal loop is the only one to remove the socket of another. -/
theorem step_live {a : Act ι} (hs : s.step codec permitted a = some s') :
    (s'.live = true → s.live = true) ∧
      (s'.unlinkedLive = true → s.unlinkedLive = true ∨ (s.client = .stale ∧ s.live = true)) := by
  cases a with
  | bind | listen | chown | accept | discover | connect =>
    simp only [ApiSys.step, bind, listen, chown, accept, discover, connect] at hs
    grind
  | readRequest source =>
    simp only [ApiSys.step, readRequest] at hs
    grind
  | writeResponse plan =>
    simp only [ApiSys.step, writeResponse] at hs
    grind
  | writeRequest plan =>
    simp only [ApiSys.step, writeRequest] at hs
    grind
  | readResponse source =>
    simp only [ApiSys.step, readResponse] at hs
    grind
  | removeStale =>
    simp only [ApiSys.step, removeStale] at hs
    grind
  | update info =>
    cases hs
    exact ⟨id, .inl⟩
  | exit killed =>
    cases hs
    exact ⟨nofun, .inl⟩

theorem Exchange.step (h : s.Exchange codec) {a : Act ι} (hlive : s.live = true) (hok : s.GoesWell codec permitted a)
    (hs : s.step codec permitted a = some s') (hlive' : s'.live = true) : s'.Exchange codec := by
  cases a with
  | bind ok => exact h.bind hs
  | listen => exact h.listen hs
  | chown ok =>
    obtain rfl := hok hlive
    exact h.chown hs
  | accept => exact h.accept hs
  | readRequest source => exact h.readRequest (hok hlive).1 (hok hlive).2 hs
  | writeResponse plan => exact h.writeResponse (hok hlive).1 (hok hlive).2 hs
  | update info =>
    cases hs
    exact { h with }
  | exit killed =>
    cases hs
    cases hlive'
  | discover => exact h.discover hs
  | connect => exact h.connect (hok hlive).1 (hok hlive).2 hs
  | writeRequest plan => exact h.writeRequest (hok hlive) hs
  | readResponse source => exact h.readResponse (hok hlive) hs
  | removeStale => exact h.removeStale hs

theorem Inv.step (h : s.Inv codec) {a : Act ι} (hok : s.GoesWell codec permitted a) (hs : s.step codec permitted a = some s') :
    s'.Inv codec := by
  obtain ⟨hlive, hunlinked⟩ := step_live hs
  constructor
  · rw [← Bool.not_eq_true]
    intro hu
    rcases hunlinked hu with hu | ⟨hstale, hl⟩
    · exact Bool.false_ne_true (h.noneUnlinked.symm.trans hu)
    · exact (h.exchange hl).notStale hstale
  · intro hl
    exact (h.exchange (hlive hl)).step (hlive hl) hok hs hl

/-- In every run in which each step beside an instance that is there goes well, the clean-up is safe. -/
theorem safeCleanup_of_reach (codec : Codec ι) (permitted : Owner → Bool) (info : ι) (s : ApiSys ι)
    (h : Reach (step codec permitted) (GoesWell codec permitted) { info := info } s) : s.SafeCleanup :=
  (h.invariant (Inv codec) (Inv.init info) (fun _ _ _ hinv hok hs => hinv.step hok hs)).safe

/-- Two programs of one version; a `RuntimeInfo` is given by its RON text. -/
def ronCodec : Codec Bytes where
  deRequest text := if text = Request.ron .getConfig then some .getConfig else none
  serResponse info := some (bytes "Config(" ++ info ++ bytes ")")
  deResponse text := if (bytes "Config(").isPrefixOf text then some ((text.drop 7).dropLast) else none

/-- The bytes of a message come in one piece. -/
def inOnePiece (sent : Bytes) : Source UInt8 := Source.putBack sent []

/-- A client that finds the instance active. -/
theorem safeCleanup_active : ∃ s,
    Reach (step ronCodec (fun _ => true)) (GoesWell ronCodec (fun _ => true)) { info := bytes "()" } s ∧
    s.client = .active (bytes "()") ∧ s.SafeCleanup := by
  obtain ⟨s, hs, hq⟩ := exists_reach (step ronCodec (fun _ => true)) (GoesWell ronCodec (fun _ => true))
    (fun s => s.client = .active (bytes "()")) { info := bytes "()" }
    [.bind true, .listen, .discover, .connect, .chown true, .writeRequest [], .accept,
      .readRequest (inOnePiece (Ipc.frame (bytes "GetConfig"))), .writeResponse [],
      .readResponse (inOnePiece (Ipc.frame (bytes "Config(())")))] (by decide)
  exact ⟨s, hs, hq, safeCleanup_of_reach ronCodec (fun _ => true) (bytes "()") s hs⟩

/-- A client that connects between bind(2) and listen(2) takes the socket for stale and removes it. -/
theorem safeCleanup_false : ¬ ∀ (codec : Codec Bytes) permitted info s,
    Reach (step codec permitted) Any { info := info } s → s.SafeCleanup := by
  intro h
  obtain ⟨s, hs, hq⟩ := exists_reach (step ronCodec (fun _ => true)) Any (fun s => ¬ s.unlinkedLive = false)
    { info := bytes "()" } [.bind true, .discover, .connect, .removeStale] (by decide)
  exact hq (h ronCodec (fun _ => true) (bytes "()") s hs).noneUnlinked

end ApiSys

end Anylinuxfs
