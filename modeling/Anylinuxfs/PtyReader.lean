import Anylinuxfs.Text

/-!
# The console of the guest

`PtyReader::spawn` and `parse_vm_tag_value`: how the host reads the lines that the guest prints. The lines come as `read_line`
returns them, each with its end of line. What the reader sends to the other threads is a list of messages.
-/

namespace Anylinuxfs

/-- `parse_vm_tag_value`. -/
def parseVmTagValue (line : List Char) : Option (List Char) :=
  (splitOnce ':' line).map (fun (_, rest) =>
    let trimmed := trim rest
    if trimmed.getLast? = some '>' then trimmed.dropLast else trimmed)

/-- `str::parse::<i32>`. -/
def parseI32 (s : List Char) : Option Int :=
  let digits := if s.head? = some '-' ∨ s.head? = some '+' then s.tail else s
  if digits ≠ [] ∧ digits.all Char.isDigit then
    let n := digits.foldl (fun n c => 10 * n + (c.toNat - '0'.toNat)) 0
    if s.head? = some '-' then if n ≤ 2 ^ 31 then some (-n) else none
    else if n < 2 ^ 31 then some n else none
  else none

namespace PtyReader

/-- `NfsReadyState`. -/
structure NfsReadyState where
  fslabel : Option (List Char)
  fstype : Option (List Char)
  changedToRo : Bool
  exports : List (List Char)
  deriving DecidableEq, Repr

/-- What is sent to the other threads: `NfsStatus`, the prompts for passphrases, and what is done about the console log. -/
inductive Sent where
  | nfsReady (state : NfsReadyState)
  | nfsFailed (exitCode : Option Int)
  | subscribeToVmEvents
  | pwdPrompt (start : Bool)
  | consoleLog (enabled : Bool)
  deriving DecidableEq, Repr

/-- The variables of the loop. -/
structure State where
  nfsReady : Bool := false
  fslabel : Option (List Char) := none
  fstype : Option (List Char) := none
  changedToRo : Bool := false
  exitCode : Option Int := none
  exports : List (List Char) := []
  deriving DecidableEq, Repr

/-- `<anylinuxfs-`. -/
def tagOpener : List Char := "<anylinuxfs-".toList

/-- `<anylinuxfs-label`. -/
def labelTag : List Char := "<anylinuxfs-label".toList

/-- The line that the NFS server prints. -/
def readyText : List Char := "READY AND WAITING FOR NFS CLIENT CONNECTIONS".toList

/-- The part of a line that is matched against the tags. -/
def tagged (line : List Char) : List Char := (findFrom tagOpener line).getD line

/-- One turn of the loop, with what it sends. -/
def next (verbose : Bool) (s : State) (line : List Char) : State × List Sent :=
  let tagged := tagged line
  if (findFrom readyText line).isSome then
    ({ s with fslabel := none, fstype := none, nfsReady := true },
      [.nfsReady ⟨s.fslabel, s.fstype, s.changedToRo, s.exports⟩])
  else if "<anylinuxfs-vmproxy-ready>".toList.isPrefixOf tagged then (s, [.subscribeToVmEvents])
  else if "<anylinuxfs-exit-code".toList.isPrefixOf tagged then
    ({ s with exitCode := (parseVmTagValue tagged).bind parseI32 }, [])
  else if labelTag.isPrefixOf tagged then ({ s with fslabel := parseVmTagValue tagged }, [])
  else if "<anylinuxfs-type".toList.isPrefixOf tagged then ({ s with fstype := parseVmTagValue tagged }, [])
  else if "<anylinuxfs-mount:changed-to-ro>".toList.isPrefixOf tagged then ({ s with changedToRo := true }, [])
  else if "<anylinuxfs-nfs-export".toList.isPrefixOf tagged then
    match parseVmTagValue tagged with
    | some exportPath => ({ s with exports := setInsert exportPath s.exports }, [])
    | none => (s, [])
  else if "<anylinuxfs-passphrase-prompt:start>".toList.isPrefixOf tagged then (s, [.pwdPrompt true])
  else if "<anylinuxfs-passphrase-prompt:end>".toList.isPrefixOf tagged then (s, [.pwdPrompt false])
  else if verbose = false ∧ "<anylinuxfs-force-output:off>".toList.isPrefixOf tagged then (s, [.consoleLog false])
  else if verbose = false ∧ "<anylinuxfs-force-output:on>".toList.isPrefixOf tagged then (s, [.consoleLog true])
  else (s, [])

/-- The loop over the lines, from a state on. -/
def runFrom (verbose : Bool) (s : State) : List (List Char) → List Sent
  | [] => if s.nfsReady then [] else [.nfsFailed s.exitCode]
  | line :: rest => (next verbose s line).2 ++ runFrom verbose (next verbose s line).1 rest

/-- `PtyReader::spawn`, until the lines end. -/
def spawn (verbose : Bool) (lines : List (List Char)) : List Sent := runFrom verbose {} lines

/-- `NfsStatus`: the messages to the thread that waits for the server. -/
def Sent.isStatus : Sent → Bool
  | .nfsReady _ => true
  | .nfsFailed _ => true
  | _ => false

/-- The loop over what `read_line` returns: a line, which is empty at the end of the stream, or an error. When no more is
returned, the reader waits. -/
def runReads (verbose : Bool) (s : State) : List (Option (List Char)) → List Sent
  | [] => []
  | none :: _ => if s.nfsReady then [] else [.nfsFailed s.exitCode]
  | some [] :: _ => if s.nfsReady then [] else [.nfsFailed s.exitCode]
  | some line :: rest => (next verbose s line).2 ++ runReads verbose (next verbose s line).1 rest

end PtyReader

end Anylinuxfs
