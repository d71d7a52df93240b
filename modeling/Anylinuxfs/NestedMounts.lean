import Anylinuxfs.Lib.Interleave
import Anylinuxfs.Lib.Shell
import Anylinuxfs.NfsShare

/-!
# Nested mounts

`parallel_mount_recursive` and `parallel_unmount_recursive` (`fsutil.rs`), with the threads that visit the children of a node in
parallel, and the mount points that `run_unmount` (`cmd_mount.rs`) hands over to `unmount_nfs_subdirs`. A command is a shell that
runs a script with the paths of a node spliced in.
-/

namespace Anylinuxfs

open Interact (Interleave)

/-! ## Commands -/

/-- The arguments of a shell that runs a script, as root if it has to. -/
def shellCommand (elevate : Bool) (script : Bytes) : List Bytes :=
  (if elevate then [bytes "sudo", bytes "-S"] else []) ++ [bytes "sh", bytes "-c", script]

/-- The command of `parallel_mount_recursive` for a node. -/
def mountCommand (elevate : Bool) (opts vmHost mntPointBase : Bytes) (paths : Bytes × Bytes) : List Bytes :=
  shellCommand elevate (mountScript opts vmHost paths.2 (pathJoin mntPointBase paths.1))

/-- The script that unmounts. `display` is how a byte string is written as text. -/
def unmountScript (os : HostOs) (display : Bytes → List Char) (mountPath : Bytes) : Bytes :=
  match os with
  | .macos => bytes "diskutil unmount \"" ++ utf8 (display mountPath) ++ bytes "\""
  | .linux => bytes "umount \"" ++ utf8 (display mountPath) ++ bytes "\""

/-- The command of `parallel_unmount_recursive` for a node. -/
def unmountCommand (os : HostOs) (display : Bytes → List Char) (paths : Bytes × Bytes) : List Bytes :=
  shellCommand false (unmountScript os display paths.2)

/-- The words that the script of an unmount is meant to be. -/
def unmountWords (os : HostOs) (mountPath : Bytes) : List Bytes :=
  match os with
  | .macos => [bytes "diskutil", bytes "unmount", mountPath]
  | .linux => [bytes "umount", mountPath]

/-- The command is a shell that reads its script as one simple command, of these words. -/
def ShellReads (command ws : List Bytes) : Prop :=
  ∃ elevate script, command = shellCommand elevate script ∧ Shell.words script = some ws

namespace DirTrie

variable (command : Bytes × Bytes → List Bytes) (succeeds : List Bytes → Bool)

mutual

/-- A call of `parallel_mount_recursive`: the commands that are run, and whether it returns `Ok`. `command` is the one for the paths
of a node, `succeeds` whether a command could be run and its exit status is that of success. -/
def MountRun : DirTrie → List (List Bytes) → Bool → Prop
  | .node none children, trace, ok => MountEach (!ok) children trace ok
  | .node (some paths) children, trace, ok =>
    if succeeds (command paths) then ∃ rest, trace = command paths :: rest ∧ MountEach (!ok) children rest ok
    else trace = [command paths] ∧ ok = false

/-- The calls for the children of a node, in parallel. `try_for_each` does not begin those that have not begun when one has failed;
`stopped` is whether that is so. -/
def MountEach (stopped : Bool) : List (Bytes × DirTrie) → List (List Bytes) → Bool → Prop
  | [], trace, ok => trace = [] ∧ ok = true
  | (_, child) :: rest, trace, ok =>
    (∃ trace₁ trace₂ ok₁ ok₂, MountRun child trace₁ ok₁ ∧ MountEach stopped rest trace₂ ok₂ ∧
      Interleave trace₁ trace₂ trace ∧ ok = (ok₁ && ok₂)) ∨ (stopped = true ∧ MountEach stopped rest trace ok)

end

variable (spawns : List Bytes → Bool)

mutual

/-- A call of `parallel_unmount_recursive`: the children first. `spawns` is whether a command could be run; its exit status is
ignored. -/
def UnmountRun : DirTrie → List (List Bytes) → Bool → Prop
  | .node paths children, trace, ok =>
    ∃ trace' ok', UnmountEach (!ok') children trace' ok' ∧
      if ok' then trace = trace' ++ paths.toList.map command ∧ ok = paths.all (spawns ∘ command) else trace = trace' ∧ ok = false

/-- The calls for the children of a node, in parallel. -/
def UnmountEach (stopped : Bool) : List (Bytes × DirTrie) → List (List Bytes) → Bool → Prop
  | [], trace, ok => trace = [] ∧ ok = true
  | (_, child) :: rest, trace, ok =>
    (∃ trace₁ trace₂ ok₁ ok₂, UnmountRun child trace₁ ok₁ ∧ UnmountEach stopped rest trace₂ ok₂ ∧
      Interleave trace₁ trace₂ trace ∧ ok = (ok₁ && ok₂)) ∨ (stopped = true ∧ UnmountEach stopped rest trace ok)

end

end DirTrie

/-! ## Unmounting -/

/-- The path of a mount point under another one, as in `unmount_nfs_subdirs`; there is none when it does not lie there. -/
def unmountRelative (mntPointBase subdir : Bytes) : Option Bytes :=
  if subdir = mntPointBase then some []
  else if mntPointBase.isPrefixOf subdir then
    match subdir.drop mntPointBase.length with
    | [] => none
    | c :: rest => if c = slash then some rest else none
  else none

/-- The trie that `unmount_nfs_subdirs` builds; what does not lie under the mount point is skipped. -/
def unmountTrie (mntPointBase : Bytes) (subdirs : List Bytes) : DirTrie :=
  subdirs.foldl (fun trie subdir =>
    match unmountRelative mntPointBase subdir with
    | some relative => trie.insert (relative, subdir) (components relative)
    | none => trie) (.node none [])

/-- The filter of `run_unmount`. -/
def underMountPoint (mountPoint mpt : Bytes) : Bool :=
  mpt = mountPoint || (mountPoint.isPrefixOf mpt && mpt[mountPoint.length]? = some slash)

/-- `our_mount_points`, in the order in which the set of the mount points is visited. -/
def ourMountPoints (mountPoints : List Bytes) (mountPoint : Bytes) : List Bytes := mountPoints.filter (underMountPoint mountPoint)

/-! ## Normalised paths -/

/-- The name of a directory. -/
structure DirName where
  bytes : Bytes
  valid : bytes ≠ [] ∧ slash ∉ bytes ∧ bytes ≠ Anylinuxfs.bytes "." ∧ bytes ≠ Anylinuxfs.bytes ".."
  deriving DecidableEq

/-- A normalised path, absolute or not. -/
def pathText (absolute : Bool) (names : List DirName) : Bytes :=
  (if absolute then [slash] else []) ++ [slash].intercalate (names.map DirName.bytes)

/-- The directories that a path names, one below the other. -/
def Denotes (path : Bytes) (absolute : Bool) (names : List DirName) : Prop :=
  components path = (if absolute then [[slash]] else []) ++ names.map DirName.bytes

/-- A directory is above another one. -/
def Above (a b : List DirName) : Prop := a <+: b ∧ a ≠ b

/-! ## What is asked of the mounts -/

/-- The command for an export below a base. -/
def exportCommand (elevate : Bool) (opts vmHost mntPointBase base subdir : Bytes) : List Bytes :=
  mountCommand elevate opts vmHost mntPointBase (subdirRelative base subdir, subdir)

/-- If every command succeeds, `mount_nfs_subdirs` runs one command for each of the exports that lie below a base, and no others,
each of them after those for the exports above, whatever the threads do; and the shell reads each as the mount of its export. -/
def MountsNested (elevate : Bool) (opts vmHost mntPointBase base : Bytes) (absolute : Bool) (dir : List DirName)
    (exports : List (List DirName)) : Prop :=
  let subdir := fun below => pathText absolute (dir ++ below)
  let command := fun below => exportCommand elevate opts vmHost mntPointBase base (subdir below)
  let run := (subdirTrie base (exports.map subdir)).MountRun (mountCommand elevate opts vmHost mntPointBase)
  (∀ succeeds, (∀ c, succeeds c = true) → (∃ trace, run succeeds trace true) ∧
    ∀ trace ok, run succeeds trace ok → ok = true ∧ trace.Perm (exports.map command) ∧
      ∀ a ∈ exports, ∀ b ∈ exports, Above a b → [command a, command b].Sublist trace) ∧
  ∀ below ∈ exports, ShellReads (command below)
    (mountWords opts vmHost (subdir below) (pathJoin mntPointBase (subdirRelative base (subdir below))))

/-- If every command can be run, `run_unmount` runs one command for each mount point that is the one of the mount or lies below it,
and no others, each of them before those for the mount points above, whatever the threads do; and the shell reads each as the
unmount of its mount point. -/
def UnmountsNested (os : HostOs) (display : Bytes → List Char) (mountPoint : List DirName) (table : List (List DirName)) : Prop :=
  let base := pathText true mountPoint
  let command := fun names => unmountCommand os display (subdirRelative base (pathText true names), pathText true names)
  let run := (unmountTrie base (ourMountPoints (table.map (pathText true)) base)).UnmountRun (unmountCommand os display)
  (∀ spawns, (∀ c, spawns c = true) → (∃ trace, run spawns trace true) ∧
    ∀ trace ok, run spawns trace ok → ok = true ∧ trace.Perm ((table.filter (mountPoint <+: ·)).map command) ∧
      ∀ a ∈ table, ∀ b ∈ table, mountPoint <+: a → Above a b → [command b, command a].Sublist trace) ∧
  ∀ names ∈ table, mountPoint <+: names → ShellReads (command names) (unmountWords os (pathText true names))

end Anylinuxfs
