import Anylinuxfs.ExitStatus
import Anylinuxfs.Lib.Pipes

/-!
# The output of a command

`run_vmcommand_short` (`vm.rs`), which reads what a VM writes on its two outputs one after the other, and `echo_child_output`
(`utils.rs`), which reads those of another program beside each other. After the fork only the process on the other side has the
write ends, so a pipe ends when that process does.
-/

namespace Anylinuxfs

namespace VmCommand

/-- The two outputs of a process. -/
inductive Output where
  | out | err
  deriving DecidableEq, Repr

instance fintypeOutput : Fintype Output := ⟨{.out, .err}, fun c => by cases c <;> decide⟩

/-- What a call of `read` returns. -/
inductive ReadResult where
  | data (bytes : List UInt8)
  | endOfFile
  | interrupted
  | failed
  deriving DecidableEq, Repr

/-- The loop of `read_all_from_fd`, behind what it has read; `none` as long as it goes on. -/
def readAllFromFd (output : List UInt8) : List ReadResult → Option (Except (List Char) (List UInt8))
  | [] => none
  | .endOfFile :: _ => some (.ok output)
  | .data bytes :: rest => readAllFromFd (output ++ bytes) rest
  | .interrupted :: rest => readAllFromFd output rest
  | .failed :: _ => some (.error "Failed to read from pipe".toList)

/-- `VMOutput`. -/
structure VMOutput where
  status : Int
  stdout : List UInt8
  stderr : List UInt8
  deriving DecidableEq, Repr

/-- The parent in `run_vmcommand_short`, by what its calls of `read` and `waitpid` return. -/
def runVmcommandShort (outReads errReads : List ReadResult) (waitpid : Option Int) : Option (Except (List Char) VMOutput) :=
  match readAllFromFd [] outReads with
  | none => none
  | some (.error e) => some (.error e)
  | some (.ok stdout) =>
    match readAllFromFd [] errReads with
    | none => none
    | some (.error e) => some (.error e)
    | some (.ok stderr) =>
      match waitpid with
      | some status => some (.ok ⟨toExitCode status, stdout, stderr⟩)
      | none => some (.error "Failed to wait for child process".toList)

/-- A loop over `lines()`, behind what it has read; a call that fails is passed over. -/
def readLines (read : List UInt8) : List ReadResult → Option (List UInt8)
  | [] => none
  | .endOfFile :: _ => some read
  | .data bytes :: rest => readLines (read ++ bytes) rest
  | .interrupted :: rest | .failed :: rest => readLines read rest

/-- `echo_child_output`, by what its calls of `read` return: the thread reads the errors and the caller the other output, and then
the caller waits for the thread. -/
def echoChildOutput (outReads errReads : List ReadResult) : Option (List UInt8 × List UInt8) :=
  match readLines [] outReads with
  | none => none
  | some out => (readLines [] errReads).map fun err => (out, err)

/-- The calls of `read` on a pipe that gives these bytes, in parts that fit into the buffer, and then comes to its end. -/
inductive Serves : List UInt8 → List ReadResult → Prop where
  | ends (rest : List ReadResult) : Serves [] (.endOfFile :: rest)
  | gives {bytes more : List UInt8} {rest : List ReadResult} : bytes ≠ [] → bytes.length ≤ 1024 → Serves more rest →
      Serves (bytes ++ more) (.data bytes :: rest)
  | interrupts {bytes : List UInt8} {rest : List ReadResult} : Serves bytes rest → Serves bytes (.interrupted :: rest)

/-- Who reads what in `run_vmcommand_short`. -/
def shortReaders : List (List Output) := [[.out, .err]]

/-- Who reads what in `echo_child_output`: a thread and the caller. -/
def echoReaders : List (List Output) := [[.err], [.out]]

/-- A thread that reads whole outputs, one after the other, until one of them cannot be read. -/
def readInTurn (reads : Output → List ReadResult) : List Output → Option (Except (List Char) (List (List UInt8)))
  | [] => some (.ok [])
  | c :: rest =>
    match readAllFromFd [] (reads c) with
    | none => none
    | some (.error e) => some (.error e)
    | some (.ok bytes) => (readInTurn reads rest).map fun r => r.map (bytes :: ·)

/-- The parent has read everything and returns it, in whatever parts it has come. -/
def Returns (output : List (Output × UInt8)) (s : Pipes.State Output UInt8) : Prop :=
  s.Done ∧ ∀ outReads errReads status, Serves (s.got .out) outReads → Serves (s.got .err) errReads →
    runVmcommandShort outReads errReads (some status) =
      some (.ok ⟨toExitCode status, Pipes.sent output .out, Pipes.sent output .err⟩)

end VmCommand

end Anylinuxfs
