import Anylinuxfs.Lib.Reach
import Anylinuxfs.LineReader

/-!
# The standard input of a VM

`StdinForwarder` (`utils.rs`) where the standard input is no terminal: the thread that reads it, `run_pipe_forwarding`, the thread
that turns the first termination signal into a `^C`, and `stop`. The threads share a channel of lines, a channel that says to stop,
and the pipe to the VM, into which each of them writes byte by byte. The VM reads its input: a write ends or fails.
-/

namespace Anylinuxfs

namespace StdinForwarder

/-- The lines of the input, each with its newline; the last one may have none. -/
def splitLines : Bytes → List Bytes
  | [] => []
  | b :: input =>
    if b = newline then [b] :: splitLines input
    else
      match splitLines input with
      | [] => [[b]]
      | line :: lines => (b :: line) :: lines

/-- What a call of `read_line` returns, but for the end of the input: it fails on what is not UTF-8. -/
inductive ReadLine where
  | line (data : Bytes)
  | failed
  deriving DecidableEq, Repr

/-- The calls of `read_line` on an input. -/
def readLines (input : Bytes) : List ReadLine :=
  (splitLines input).map fun line => if (fromUtf8 line).isSome then .line line else .failed

/-- The program that a byte on the VM's input comes from. -/
inductive Source where
  | stdin | signal
  deriving DecidableEq, Repr

/-- Where `run_pipe_forwarding` is: it looks for a request to stop, waits for what the other thread has read, writes what is left of
it, or has ended, with or without an error. -/
inductive Forwarder where
  | poll | receive
  | write (left : Bytes) (last : Bool)
  | ended (ok : Bool)
  deriving DecidableEq, Repr

/-- The threads and what they share. -/
structure State where
  reads : List ReadLine
  reading : Bool := true
  queue : List (Option Bytes) := []
  forwarder : Forwarder := .poll
  closeSent : Bool := false
  signalled : Bool := false
  vmInput : List (Source × UInt8) := []
  deriving DecidableEq, Repr

/-- `^C`. -/
def interrupt : UInt8 := 0x03

/-- `^D`. -/
def endOfTransmission : UInt8 := 0x04

/-- What is written for a message of the reading thread. -/
def messageBytes (message : Option Bytes) : Bytes := message.getD [endOfTransmission]

/-- A step of the reading thread, of `run_pipe_forwarding`, of a write of the latter that fails, of the first signal, of a write for
it that fails, and the call of `stop`. -/
inductive Act where
  | read | forward | writeFails | signal | signalFails | stop
  deriving DecidableEq, Repr

/-- The reading thread, which ends with the input, with an error, or when nobody receives any more. -/
def readStep (s : State) : Option State :=
  if s.reading = false then none
  else
    match s.reads, s.forwarder with
    | .line _ :: rest, .ended _ => some { s with reads := rest, reading := false }
    | .line data :: rest, _ => some { s with reads := rest, queue := s.queue ++ [some data] }
    | _, _ => some { s with reading := false, queue := s.queue ++ [none] }

/-- `run_pipe_forwarding`. That a wait times out makes a difference only if there is a request to stop. -/
def forwardStep (s : State) : Option State :=
  match s.forwarder with
  | .poll => some { s with forwarder := if s.closeSent then .ended true else .receive }
  | .receive =>
    match s.queue with
    | message :: rest => some { s with queue := rest, forwarder := .write (messageBytes message) message.isNone }
    | [] =>
      if s.reading = false then some { s with forwarder := .ended true }
      else if s.closeSent then some { s with forwarder := .poll }
      else none
  | .write (b :: left) last => some { s with vmInput := s.vmInput ++ [(.stdin, b)], forwarder := .write left last }
  | .write [] last => some { s with forwarder := if last then .ended true else .poll }
  | .ended _ => none

def step (s : State) : Act → Option State
  | .read => readStep s
  | .forward => forwardStep s
  | .writeFails =>
    match s.forwarder with
    | .write (_ :: _) _ => some { s with forwarder := .ended false }
    | _ => none
  | .signal => if s.signalled then none else some { s with signalled := true, vmInput := s.vmInput ++ [(.signal, interrupt)] }
  -- nobody is told about the error
  | .signalFails => if s.signalled then none else some { s with signalled := true }
  | .stop => if s.closeSent then none else some { s with closeSent := true }

/-- The steps as long as nobody calls `stop` and no write of `run_pipe_forwarding` fails. -/
def undisturbed (s : State) (a : Act) : Option State := if a = .writeFails ∨ a = .stop then none else step s a

/-- The threads at their start. -/
def init (reads : List ReadLine) : State := { reads }

/-- What has come to the VM from the standard input. -/
def State.forwarded (s : State) : Bytes := (s.vmInput.filter (·.1 = .stdin)).map (·.2)

/-- What has come to the VM from signals. -/
def State.interrupts (s : State) : Bytes := (s.vmInput.filter (·.1 = .signal)).map (·.2)

/-- What the reading thread sends for its calls. -/
def messages : List ReadLine → List (Option Bytes)
  | .line data :: rest => some data :: messages rest
  | _ => [none]

/-- The lines before the first one that is not UTF-8. -/
def readable (input : Bytes) : Bytes := ((splitLines input).takeWhile fun line => (fromUtf8 line).isSome).flatten

end StdinForwarder

end Anylinuxfs
