import Anylinuxfs.Lib.Reach
import Mathlib.Data.List.Dedup
import Mathlib.Logic.Function.Basic

/-!
# The log files of the mounts

Every mount begins with `collect_active_instances` and `cleanup_old_logs`, before it makes a log file of its own. Other mounts run
meanwhile: they write to their logs, begin to serve their API, and end. That a server answers every request is taken as given here.
-/

namespace Anylinuxfs

namespace LogRetention

/-- A file of the log directory, with the time of its last change. -/
structure LogFile where
  name : List Char
  mtime : Nat
  deriving DecidableEq, Repr

/-- The path of a log file. -/
structure LogPath where
  dir : List Char
  name : List Char
  deriving DecidableEq, Repr

/-! ## The clean-up -/

/-- `LOG_RETENTION_COUNT`. -/
def logRetentionCount : Nat := 10

/-- The pattern of `cleanup_old_logs`. -/
def isLogName (fname : List Char) : Bool :=
  ("anylinuxfs-".toList.isPrefixOf fname || "anylinuxfs.".toList.isPrefixOf fname) && ".log".toList.isSuffixOf fname

/-- `collect_files_with_mtime`, in the order of the directory. -/
def collectFilesWithMtime (files : List LogFile) (predicate : List Char → Bool) : List LogFile :=
  files.filter fun f => predicate f.name

/-- The sort by modification time, the newest first. -/
def newestFirst (files : List LogFile) : List LogFile := files.mergeSort fun a b => decide (b.mtime ≤ a.mtime)

/-- What is between `anylinuxfs` and `.log`. -/
def idPart (fname : List Char) : Option (List Char) := (fname.dropPrefix? "anylinuxfs".toList).bind (·.dropSuffix? ".log".toList)

def mainLog (idPart : List Char) : List Char := "anylinuxfs".toList ++ idPart ++ ".log".toList

def kernelLog (idPart : List Char) : List Char := "anylinuxfs_kernel".toList ++ idPart ++ ".log".toList

def nethelperLog (idPart : List Char) : List Char := "anylinuxfs_nethelper".toList ++ idPart ++ ".log".toList

/-- What is removed together with a log file. -/
def removedWith (fname : List Char) : List (List Char) :=
  match idPart fname with
  | some id => [fname, kernelLog id, nethelperLog id]
  | none => [fname]

/-- `fs::remove_file`, whose errors are ignored: `removes` says which files it can remove. -/
def removeFile (removes : List Char → Bool) (files : List LogFile) (fname : List Char) : List LogFile :=
  if removes fname then files.filter fun f => f.name ≠ fname else files

/-- How many log files are kept, whatever their age is compared with others. -/
def retentionCount (active : List LogPath) : Nat := max active.dedup.length (logRetentionCount - 1)

/-- The log files that a clean-up deletes. -/
def oldLogs (logDir : List Char) (active : List LogPath) (files : List LogFile) : List LogFile :=
  ((newestFirst (collectFilesWithMtime files isLogName)).drop (retentionCount active)).filter fun f => ⟨logDir, f.name⟩ ∉ active

/-- `cleanup_old_logs`. -/
def cleanupOldLogs (logDir : List Char) (removes : List Char → Bool) (active : List LogPath) (files : List LogFile) :
    List LogFile :=
  ((oldLogs logDir active files).flatMap fun f => removedWith f.name).foldl (removeFile removes) files

/-! ## Mounts that share a log directory -/

/-- How far a mount is: it has asked which instances are active, has cleaned up, or has its log file. -/
inductive Phase where
  | idle
  | discovered (active : List LogPath)
  | cleaned
  | logging
  | over
  deriving DecidableEq, Repr

/-- A mount that is about to clean up has heard of the instance with this log. -/
def Phase.Knows (path : LogPath) : Phase → Prop
  | .discovered active => path ∈ active
  | _ => True

instance decidableKnows (path : LogPath) : (phase : Phase) → Decidable (phase.Knows path)
  | .discovered _ => inferInstanceAs (Decidable (path ∈ _))
  | .idle | .cleaned | .logging | .over => inferInstanceAs (Decidable True)

/-- The log directory, the mounts that use it, and those of them that serve their API. -/
structure LogSys (I : Type) where
  files : List LogFile
  phase : I → Phase
  serving : List I

/-- A step of a mount. It learns of instances that log elsewhere as well, its removals may fail, and its writes have a time. -/
inductive Act (I : Type) where
  | discover (i : I) (elsewhere : List LogPath)
  | cleanup (i : I) (removes : List Char → Bool)
  | initLogFile (i : I) (removes : List Char → Bool) (now : Nat)
  | serve (i : I)
  | write (i : I) (now : Nat)
  | openKernelLog (i : I) (now : Nat)
  | openNethelperLog (i : I) (now : Nat)
  | finish (i : I)

/-- A file that is made or truncated. -/
def createFile (files : List LogFile) (fname : List Char) (now : Nat) : List LogFile :=
  if fname ∈ files.map LogFile.name then files.map fun f => if f.name = fname then { f with mtime := now } else f
  else files ++ [⟨fname, now⟩]

/-- A write to an open file, which may have been deleted. -/
def writeFile (files : List LogFile) (fname : List Char) (now : Nat) : List LogFile :=
  files.map fun f => if f.name = fname then { f with mtime := now } else f

namespace LogSys

variable {I : Type} [DecidableEq I]

/-- Mounts that have not begun, and what earlier ones have left. -/
def init (files : List LogFile) : LogSys I := ⟨files, fun _ => .idle, []⟩

/-- The part of the names of a mount's log files that `load_config` has drawn, with its hyphen. -/
def logId (id : I → List Char) (i : I) : List Char := '-' :: id i

/-- `log_file_path`. -/
def logPath (logDir : List Char) (id : I → List Char) (i : I) : LogPath := ⟨logDir, mainLog (logId id i)⟩

def step (logDir : List Char) (id : I → List Char) (s : LogSys I) : Act I → Option (LogSys I)
  | .discover i elsewhere =>
    if s.phase i = .idle then
      some { s with phase := Function.update s.phase i (.discovered (s.serving.map (logPath logDir id) ++ elsewhere)) }
    else none
  | .cleanup i removes =>
    match s.phase i with
    | .discovered active =>
      some { s with files := cleanupOldLogs logDir removes active s.files, phase := Function.update s.phase i .cleaned }
    | _ => none
  | .initLogFile i removes now =>
    if s.phase i = .cleaned then
      some { s with files := removeFile removes (createFile s.files (mainLog (logId id i)) now) (kernelLog (logId id i)),
                    phase := Function.update s.phase i .logging }
    else none
  | .serve i => if s.phase i = .logging ∧ i ∉ s.serving then some { s with serving := s.serving ++ [i] } else none
  | .write i now => if s.phase i = .logging then some { s with files := writeFile s.files (mainLog (logId id i)) now } else none
  | .openKernelLog i now =>
    if s.phase i = .logging then some { s with files := createFile s.files (kernelLog (logId id i)) now } else none
  | .openNethelperLog i now =>
    if s.phase i = .logging then some { s with files := createFile s.files (nethelperLog (logId id i)) now } else none
  | .finish i =>
    if s.phase i ≠ .over then
      some { s with phase := Function.update s.phase i .over, serving := s.serving.filter (· ≠ i) }
    else none

/-- Every mount that is about to clean up has heard of this one. -/
def Known (logDir : List Char) (id : I → List Char) (i : I) (s : LogSys I) : Prop :=
  ∀ j, (s.phase j).Knows (logPath logDir id i)

/-- The names of the log files of a mount. -/
def ownLogs (id : I → List Char) (i : I) : List (List Char) :=
  [mainLog (logId id i), kernelLog (logId id i), nethelperLog (logId id i)]

/-- Mounts clean up one after another, each of which can remove what it wants to and hears of so many instances at most. -/
def InTurn (m : Nat) (s : LogSys I) : Act I → Prop
  | .cleanup i removes =>
    (∀ fname, removes fname = true) ∧ (∀ j, s.phase j ≠ .cleaned) ∧
      ∀ active, s.phase i = .discovered active → active.dedup.length ≤ m
  | _ => True

/-- The log files but for those of the kernel and of the network helper. -/
def mainLogs (s : LogSys I) : List LogFile := collectFilesWithMtime s.files isLogName

end LogSys

end LogRetention

end Anylinuxfs
