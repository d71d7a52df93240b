import Anylinuxfs.Lib.FdTable

/-!
# Processes and their descriptors

`new_pipe`, the three functions that fork, and the redirection to `/dev/null` (`utils.rs`) on the descriptors of the process. A
function that forks is run on either side of the fork, from the same descriptors; a process that is told that a call failed gives
up with the text of the context.
-/

namespace Anylinuxfs

open Posix (FdTable)

namespace ForkIo

/-- The pipes, by what they are for. -/
inductive PipeName where
  | out | err | input | comm
  deriving DecidableEq, Repr

/-- What a descriptor refers to; files that were open before are known by a number. -/
inductive File where
  | readEnd (p : PipeName)
  | writeEnd (p : PipeName)
  | ptyMaster
  | ptySlave
  | devNull
  | other (id : Nat)
  deriving DecidableEq, Repr

/-- The descriptors of a process. -/
abbrev Fds := FdTable File

/-- A part of the program that changes descriptors; the error is the text of the context, and of those around it. -/
abbrev FdM := StateT Fds (Except (List Char))

/-- A call of libc with `.context(text)?`. -/
def checked {α : Type} (call : Fds → Option (α × Fds)) (text : String) : FdM α := fun t =>
  match call t with
  | some r => .ok r
  | none => .error text.toList

/-- `.context(text)?` on what has a context already, whose text follows. -/
def withContext {α : Type} (text : String) (m : FdM α) : FdM α := fun t =>
  match m t with
  | .ok r => .ok r
  | .error inner => .error (text.toList ++ ": ".toList ++ inner)

/-- `libc::close`. -/
def closeFd (fd : Nat) (text : String) : FdM Unit := checked (fun t => (t.close fd).map fun t' => ((), t')) text

/-- `libc::dup2`. -/
def redirectFd (fd target : Nat) (text : String) : FdM Unit := checked (fun t => (t.dup2 fd target).map fun t' => ((), t')) text

/-- What `fork` says. -/
inductive ForkSide where
  | failed | child | parent
  deriving DecidableEq, Repr

variable (limit : Nat)

/-- `new_pipe`. -/
def newPipe (p : PipeName) : FdM (Nat × Nat) :=
  checked (FdTable.pipe limit (.readEnd p) (.writeEnd p)) "Failed to create pipe"

/-- `PipeOutFds` and `PipeInFd`. -/
structure PipeFds where
  outFd : Nat
  errFd : Nat
  inFd : Nat
  deriving DecidableEq, Repr

/-- `fork_with_piped_output`. -/
def forkWithPipedOutput (side : ForkSide) : FdM PipeFds := do
  let out ← newPipe limit .out
  let err ← newPipe limit .err
  let input ← newPipe limit .input
  match side with
  | .failed => throw "Failed to fork process".toList
  | .child =>
    closeFd input.2 "Failed to close write end of pipe"
    closeFd out.1 "Failed to close read end of pipe"
    closeFd err.1 "Failed to close read end of pipe"
    redirectFd input.1 0 "Failed to redirect stdin"
    closeFd input.1 "Failed to close read end of pipe"
    redirectFd out.2 1 "Failed to redirect stdout"
    redirectFd err.2 2 "Failed to redirect stderr"
    closeFd out.2 "Failed to close write end of pipe"
    closeFd err.2 "Failed to close write end of pipe"
    pure ⟨out.1, err.1, input.2⟩
  | .parent =>
    closeFd input.1 "Failed to close read end of pipe"
    closeFd out.2 "Failed to close write end of pipe"
    closeFd err.2 "Failed to close write end of pipe"
    pure ⟨out.1, err.1, input.2⟩

/-- `fork_with_comm_pipe`; the result is the end of the pipe that is left to the process. -/
def forkWithCommPipe (side : ForkSide) : FdM Nat := do
  let comm ← newPipe limit .comm
  match side with
  | .failed => throw "Failed to fork process".toList
  | .child =>
    closeFd comm.1 "Failed to close read end of pipe"
    pure comm.2
  | .parent =>
    closeFd comm.2 "Failed to close write end of pipe"
    pure comm.1

/-- `redirect_fn` in `fork_with_pty_output`. -/
def redirectToPty (slaveFd : Nat) : FdM Unit := do
  redirectFd slaveFd 1 "Failed to redirect stdout to pty"
  redirectFd slaveFd 2 "Failed to redirect stderr to pty"
  redirectFd slaveFd 0 "Failed to redirect stdin to pty"
  closeFd slaveFd "Failed to close slave end of pty"

/-- `fork_with_pty_output`: the descriptor of the master, if the process has it, and the slave of a redirection that is left for
later. -/
def forkWithPtyOutput (now : Bool) (side : ForkSide) : FdM (Option Nat × Option Nat) := do
  let pty ← checked (FdTable.pipe limit .ptyMaster .ptySlave) "Failed to create pseudo-terminal"
  match side with
  | .failed => throw "Failed to fork process".toList
  | .child =>
    closeFd pty.1 "Failed to close master end of pty"
    if now then
      redirectToPty pty.2
      pure (none, none)
    else pure (none, some pty.2)
  | .parent =>
    closeFd pty.2 "Failed to close slave end of pty"
    pure (some pty.1, none)

/-- `redirect_to_null`. -/
def redirectToNull (fd : Nat) : FdM Unit := do
  let devNullFd ← checked (FdTable.openFile limit .devNull) "Failed to open /dev/null"
  redirectFd devNullFd fd "Failed to redirect fd to /dev/null"
  if devNullFd ≠ fd then closeFd devNullFd "Failed to close /dev/null fd"

/-- `redirect_stdio_to_null`. -/
def redirectStdioToNull : FdM Unit := do
  withContext "Failed to redirect stdin to /dev/null" (redirectToNull limit 0)
  withContext "Failed to redirect stdout to /dev/null" (redirectToNull limit 1)
  withContext "Failed to redirect stderr to /dev/null" (redirectToNull limit 2)

/-! ## What is asked of them -/

/-- The standard descriptors refer to these files, and the other ones to what they did. -/
def withStdio (t : Fds) (stdin stdout stderr : File) : Fds :=
  Function.update (Function.update (Function.update t 0 (some stdin)) 1 (some stdout)) 2 (some stderr)

/-- Of the standard descriptors at most one is closed. -/
def AtMostOneClosed (t : Fds) : Prop := ∀ m n, m < 3 → n < 3 → t m = none → t n = none → m = n

end ForkIo

end Anylinuxfs
