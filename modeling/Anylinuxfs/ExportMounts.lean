import Anylinuxfs.NestedMounts
import Anylinuxfs.Vmproxy

/-!
# The mounts of the exports

The guest exports the path of the mount, its subdirectories and the data sets of the pools, and prints a tag for each path
(`build_nfs_exports` of `vmproxy`). The host mounts the share path at the main mount point and the other paths below it
(`mount_subdirectories`). Which directory a path leads to is found by its names alone.
-/

namespace Anylinuxfs

/-! ## The exports -/

namespace Vmproxy

/-- A part of `vmproxy` prints the tag of an export. -/
def Emits {α : Type} (env : ∀ c : Call, c.Answer) (p : Vm α) (path : List Char) : Prop := .println (exportLine path) ∈ p.trace env

/-- A path is to be exported: it is the one of the mount or a subdirectory of the custom action, or a data set is mounted there. -/
def Exported (dsk : DiskContext) (action : Option CustomActionConfig) (mountPoint path : List Char) : Prop :=
  path ∈ exportPaths action mountPoint ∨ (dsk.isZfs = true ∧ ∃ m ∈ dsk.zfsMountpoints, m.path = path)

end Vmproxy

/-! ## Directories -/

/-- The directory that a component leads to. -/
def stepInto (dir : List Bytes) (c : Bytes) : List Bytes :=
  if c = [slash] then [] else if c = bytes "." then dir else if c = bytes ".." then dir.dropLast else dir ++ [c]

/-- The names of the directory that a path leads to. -/
def directory (path : Bytes) : List Bytes := (components path).foldl stepInto []

/-- The names that components lead to from a directory, if they never leave it. -/
def descend (dir : List Bytes) : List Bytes → Option (List Bytes)
  | [] => some dir
  | c :: cs =>
    if c = [slash] then none
    else if c = bytes "." then descend dir cs
    else if c = bytes ".." then if dir = [] then none else descend dir.dropLast cs
    else descend (dir ++ [c]) cs

/-- The path is the share path, a separator and a path that leads to a directory below, without leaving the share. -/
def LiesAt (sharePath path : Bytes) (dir : List Bytes) : Prop :=
  ∃ relative, path = sharePath ++ slash :: relative ∧ descend [] (components relative) = some dir

/-! ## What is asked of the mounts -/

/-- The script that is run for a share is one command for the shell: the mount of the share at `target`. -/
def NfsShareSetup.MountsAt (setup : NfsShareSetup) (exports : List (List Char)) (mountPoint share target : Bytes) : Prop :=
  ∃ script, (share, script) ∈ setup.mountSubdirectories exports mountPoint ∧
    Shell.words script = some (mountWords setup.nfsOpts.toList setup.vmHost share target)

/-- No export is dropped or mounted over the share: each export but the share path is mounted, all of them below the main mount
point, and two of them at different directories. -/
structure ExportsKept (setup : NfsShareSetup) (exports : List (List Char)) (mountPoint : Bytes) : Prop where
  kept : ∀ path ∈ exports, utf8 path ≠ setup.sharePath → ∃ target, setup.MountsAt exports mountPoint (utf8 path) target
  below : ∀ share target, setup.MountsAt exports mountPoint share target →
    directory mountPoint <+: directory target ∧ directory mountPoint ≠ directory target
  apart : ∀ share target share' target', setup.MountsAt exports mountPoint share target →
    setup.MountsAt exports mountPoint share' target' → directory target = directory target' → share = share'

end Anylinuxfs
