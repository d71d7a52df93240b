import Mathlib.Data.Char
import Mathlib.Data.List.Dedup
import Mathlib.Data.List.Lex
import Anylinuxfs.Lib.AndList
import Anylinuxfs.Lib.Loop
import Anylinuxfs.Vmproxy

/-!
# The pools of a ZFS disk

`import_all_zpools` (`zfs.rs`) imports all pools and finds out from the list of the data sets which pools there are;
`VmDiskContext::mount` (`main.rs`) registers the action that exports them when the guest stops.
-/

namespace Anylinuxfs

namespace Zfs

/-! ## The data sets -/

/-- `Dataset`, with the values of the properties that are listed for it. -/
structure Dataset where
  name : List Char
  pool : List Char
  mountpoint : Option (List Char)
  canmount : Option (List Char)
  encryption : Option (List Char) := none
  deriving DecidableEq, Repr

/-- `EXCLUDED_MOUNTPOINT_TYPES`. -/
def excludedMountpointTypes : List (List Char) := ["-".toList, "legacy".toList, "none".toList]

/-- The mount point of a data set, as in the loop of `mountpoints_from_json`. -/
def Dataset.mounted (ds : Dataset) : Option Vmproxy.Mountpoint :=
  match ds.mountpoint, ds.canmount with
  | some path, some canmount =>
    if path ∉ excludedMountpointTypes ∧ canmount ≠ "off".toList then
      some ⟨ds.name, path, ds.pool, ds.encryption.any (· ≠ "off".toList)⟩
    else none
  | _, _ => none

/-- `mountpoints_from_json`, on the list of the data sets in the order in which the sets are visited. -/
def mountpointsFromJson (datasets : List Dataset) : List Vmproxy.Mountpoint :=
  (datasets.filterMap Dataset.mounted).dedup.mergeSort fun a b => a.path ≤ b.path

/-- `unique_pools`. -/
def uniquePools (zfsMountpoints : List Vmproxy.Mountpoint) : List (List Char) :=
  zfsMountpoints.foldl (fun pools mp => if mp.pool ∈ pools then pools else pools ++ [mp.pool]) []

/-- `import_all_zpools`, from the exit status of `zpool import` and the list of the data sets after it. -/
def importAllZpools (status : Option Int) (datasets : List Dataset) :
    Option Int × List Vmproxy.Mountpoint × List (List Char) :=
  if status ≠ some 0 then (status, [], [])
  else (status, mountpointsFromJson datasets, uniquePools (mountpointsFromJson datasets))

/-- `zfs_export_script`. -/
def zfsExportScript (zfsPools : List (List Char)) : List Char :=
  Shell.joinAnd (zfsPools.reverse.map ("zpool export ".toList ++ ·))

/-! ## The commands -/

/-- The pools of the kernel: which are imported, which have been exported, and how often it was tried. -/
structure Pools where
  imported : List (List Char)
  exported : List (List Char) := []
  attempts : Nat := 0
  deriving DecidableEq, Repr

variable (busy : Nat → Bool)

/-- A pool is exported. `busy n` is whether the attempt `n` fails because the pool is in use. -/
def exportPool (s : Pools) (pool : List Char) : Bool × Pools :=
  if pool ∈ s.imported ∧ busy s.attempts = false then
    (true, { imported := s.imported.erase pool, exported := s.exported ++ [pool], attempts := s.attempts + 1 })
  else (false, { s with attempts := s.attempts + 1 })

/-- The pools of a command, one after the other; it succeeds if all of them are exported. -/
def exportPools (s : Pools) : List (List Char) → Bool × Pools
  | [] => (true, s)
  | pool :: rest =>
    let (ok, s') := exportPool busy s pool
    let (ok', s'') := exportPools s' rest
    (ok && ok', s'')

/-- A command. -/
def runCommand (s : Pools) : List (List Char) → Bool × Pools
  | zpool :: export' :: pools =>
    if zpool = "zpool".toList ∧ export' = "export".toList ∧ pools ≠ [] then exportPools busy s pools else (false, s)
  | _ => (false, s)

/-- The commands of a script, up to the first one that fails. -/
def runAndList (s : Pools) : List (List (List Char)) → Bool × Pools
  | [] => (true, s)
  | command :: rest =>
    match runCommand busy s command with
    | (true, s') => runAndList s' rest
    | (false, s') => (false, s')

/-- One turn of the loop in the action that `VmDiskContext::mount` registers for pools. `spawns n` is whether the shell could be
started at the turn `n`; the exit status of the script is dropped by `map(|_| ())`. -/
def unmountAction (spawns : Nat → Bool) (zfsPools : List (List Char)) : Nat × Pools → (Nat × Pools) ⊕ Pools
  | (n, s) => if spawns n then .inr (runAndList busy s (Shell.andList (zfsExportScript zfsPools))).2 else .inl (n + 1, s)

/-! ## Names -/

/-- The name of a pool: a letter, and then letters, digits, blanks and `_`, `-`, `:` and `.`. -/
def isPoolName (name : List Char) : Bool :=
  name.head?.any Char.isAlpha && name.all fun c => c.isAlphanum || [' ', '_', '-', ':', '.'].contains c

end Zfs

end Anylinuxfs
