import Anylinuxfs.Lib.KeySort
import Anylinuxfs.Lib.Prog
import Anylinuxfs.Lib.Shell
import Anylinuxfs.Zfs

/-!
# The data sets of a ZFS disk

The order of the data sets that `mountpoints_from_json` (`zfs.rs`) gives, and the scripts that `import_all_zpools` and
`mount_datasets` hand to `sh -c`, into which names and paths are spliced without quotes.
-/

namespace Anylinuxfs

namespace Zfs

/-! ## The order -/

/-- The results that `mountpoints_from_json` can have. The map of the data sets and then the set of the mount points are visited
in any order: `visited` is that of the set. -/
def Returned (datasets : List Dataset) (res : List Vmproxy.Mountpoint) : Prop :=
  ∃ visited : List Vmproxy.Mountpoint, visited.Nodup ∧ (∀ mp, mp ∈ visited ↔ ∃ ds ∈ datasets, ds.mounted = some mp) ∧
    res = KeySort.sortBy Vmproxy.Mountpoint.path visited

/-- A path leads to a directory above another one. -/
def ProperPathPrefix (path child : List Char) : Prop :=
  ∃ rest, rest ≠ [] ∧ child = path ++ rest ∧ (path.getLast? = some '/' ∨ rest.head? = some '/')

/-- What is asked of the order of the data sets. -/
structure DatasetOrder (datasets : List Dataset) : Prop where
  determined : ∀ res res', Returned datasets res → Returned datasets res' → res = res'
  parentFirst : ∀ res, Returned datasets res → ∀ (i j : Nat) (mp mp' : Vmproxy.Mountpoint), res[i]? = some mp → res[j]? = some mp' →
    ProperPathPrefix mp.path mp'.path → i < j

/-! ## The scripts -/

/-- The script of `import_all_zpools`. -/
def importScript (mountPointRoot : List Char) (readOnly : Bool) : List Char :=
  let opts := if readOnly then "-o readonly=on".toList else []
  "zpool import ".toList ++ opts ++ " -faNR ".toList ++ mountPointRoot

/-- The script that loads the key of a pool. -/
def loadKeyScript (keyFile pool : List Char) : List Char := "zfs load-key -L file://".toList ++ keyFile ++ ' ' :: pool

/-- The script that mounts a data set. -/
def mountScript (loadKeyFlag name : List Char) : List Char := "zfs mount ".toList ++ loadKeyFlag ++ ' ' :: name

/-- The calls of `mount_datasets`: a script that is waited for, or one that is started and gets a passphrase. -/
inductive ScriptCall where
  | status (script : List Char)
  | spawn (script : List Char)
  | writeStdin (pwd : Bytes)
  | wait
  deriving DecidableEq, Repr

/-- The answers to a call; a process ends with a code, or by a signal. -/
@[reducible] def ScriptCall.Answer : ScriptCall → Type
  | .status _ | .wait => Option (Option Int)
  | .spawn _ | .writeStdin _ => Except Bytes Unit

/-- The script that a call runs. -/
def ScriptCall.script : ScriptCall → Option (List Char)
  | .status script | .spawn script => some script
  | .writeStdin _ | .wait => none

/-- A part of `mount_datasets`. -/
abbrev Scripted := Interact.Prog ScriptCall ScriptCall.Answer Bytes

/-- One call. -/
def sys (c : ScriptCall) : Scripted c.Answer := Interact.Prog.perform c

/-- `.with_context(text)?`. -/
def orContext {α : Type} (text : Bytes) : Option α → Scripted α
  | some a => pure a
  | none => Interact.Prog.fail text

/-- The operator `?`. -/
def orThrow : Except Bytes Unit → Scripted Unit
  | .ok () => pure ()
  | .error e => Interact.Prog.fail e

/-- A command must have ended with the code 0. -/
def orBail (text : Bytes) (status : Option Int) : Scripted Unit :=
  if status = some 0 then pure () else Interact.Prog.fail (text ++ bytes ": exit code " ++ codeText (bytes "-1") status)

/-- The key for a data set, when it is loaded from a file that is not yet loaded for the pool. -/
def keyToLoad (keyFilePath : Option (List Char)) (loadedPools : List (List Char)) (mp : Vmproxy.Mountpoint) : Option (List Char) :=
  keyFilePath.filter fun _ => mp.encrypted = true ∧ mp.pool ∉ loadedPools

/-- The pools whose key is loaded when the data set is mounted. -/
def loadedPoolsAt (keyFilePath : Option (List Char)) (loadedPools : List (List Char)) (mp : Vmproxy.Mountpoint) : List (List Char) :=
  if (keyToLoad keyFilePath loadedPools mp).isSome then mp.pool :: loadedPools else loadedPools

/-- The first part of a turn of the loop in `mount_datasets`. -/
def loadKey (keyFilePath : Option (List Char)) (loadedPools : List (List Char)) (mp : Vmproxy.Mountpoint) : Scripted Unit := do
  match keyToLoad keyFilePath loadedPools mp with
  | some keyFile =>
    let status ← orContext (bytes "Failed to load ZFS key for pool " ++ utf8 mp.pool) (← sys (.status (loadKeyScript keyFile mp.pool)))
    orBail (bytes "zfs load-key failed for pool " ++ utf8 mp.pool) status
  | none => pure ()

/-- `load_key_flag`. -/
def loadKeyFlag (loadedPools : List (List Char)) (mp : Vmproxy.Mountpoint) : List Char :=
  if mp.pool ∈ loadedPools then [] else "-l".toList

/-- A script is run, with a passphrase for it if there is one. -/
def runWith (pwd : Option Bytes) (script : List Char) : Scripted (Option (Option Int)) :=
  match pwd with
  | some pwd => do
    orThrow (← sys (.spawn script))
    orThrow (← sys (.writeStdin pwd))
    sys .wait
  | none => sys (.status script)

/-- The second part of a turn: `pwd` is the passphrase for the data set. -/
def mountDataset (pwd : Option Bytes) (loadedPools : List (List Char)) (mp : Vmproxy.Mountpoint) : Scripted Unit := do
  let answer ← runWith pwd (mountScript (loadKeyFlag loadedPools mp) mp.name)
  let status ← orContext (bytes "Failed to mount ZFS dataset " ++ utf8 mp.name) answer
  orBail (bytes "zfs mount failed for dataset " ++ utf8 mp.name) status

/-- The loop of `mount_datasets`, from the data set with the index `i` on. -/
def mountDatasetsFrom (envPwds : List (Nat × Bytes)) (keyFilePath : Option (List Char)) (i : Nat) (loadedPools : List (List Char)) :
    List Vmproxy.Mountpoint → Scripted Unit
  | [] => pure ()
  | mp :: rest => do
    loadKey keyFilePath loadedPools mp
    mountDataset (envPwds.lookup (i + 1)) (loadedPoolsAt keyFilePath loadedPools mp) mp
    mountDatasetsFrom envPwds keyFilePath (i + 1) (loadedPoolsAt keyFilePath loadedPools mp) rest

/-- `mount_datasets`. -/
def mountDatasets (mountpoints : List Vmproxy.Mountpoint) (envPwds : List (Nat × Bytes)) (keyFilePath : Option (List Char)) :
    Scripted (Option Int) := do
  mountDatasetsFrom envPwds keyFilePath 0 [] mountpoints
  pure (some 0)

/-- The scripts that a part of `mount_datasets` runs when the calls are answered by `env`. -/
def scripts {α : Type} (env : ∀ c : ScriptCall, c.Answer) (p : Scripted α) : List (List Char) :=
  (p.trace env).filterMap ScriptCall.script

/-! ## What the scripts are meant to be -/

/-- The words that the shell makes of a script, if it is one simple command and its patterns, which find the paths that `glob` gives,
leave it as it is. -/
def argv (glob : Shell.Word → List Bytes) (script : List Char) : Option (List Bytes) := Shell.wordsIn glob (utf8 script)

/-- A command of `mount_datasets`. -/
inductive Operation where
  | loadKey (keyFile pool : List Char)
  | mount (loadKeyFlag name : List Char)
  deriving DecidableEq, Repr

namespace Operation

def script : Operation → List Char
  | loadKey keyFile pool => loadKeyScript keyFile pool
  | mount loadKeyFlag name => mountScript loadKeyFlag name

/-- The arguments that the command is meant to have. -/
def args : Operation → List Bytes
  | loadKey keyFile pool => [bytes "zfs", bytes "load-key", bytes "-L", bytes "file://" ++ utf8 keyFile, utf8 pool]
  | mount loadKeyFlag name =>
    [bytes "zfs", bytes "mount"] ++ (if loadKeyFlag = [] then [] else [utf8 loadKeyFlag]) ++ [utf8 name]

end Operation

/-- The commands for the data sets. -/
def operations (keyFilePath : Option (List Char)) (loadedPools : List (List Char)) : List Vmproxy.Mountpoint → List Operation
  | [] => []
  | mp :: rest =>
    let loadedPools' := loadedPoolsAt keyFilePath loadedPools mp
    ((keyToLoad keyFilePath loadedPools mp).map (.loadKey · mp.pool)).toList ++
      .mount (loadKeyFlag loadedPools' mp) mp.name :: operations keyFilePath loadedPools' rest

/-- The arguments that the command of `import_all_zpools` is meant to have. -/
def importArgs (mountPointRoot : List Char) (readOnly : Bool) : List Bytes :=
  [bytes "zpool", bytes "import"] ++ (if readOnly then [bytes "-o", bytes "readonly=on"] else []) ++
    [bytes "-faNR", utf8 mountPointRoot]

/-- The data set that a command mounts: `zfs mount` takes one operand. -/
def mountedBy (command : Option (List Bytes)) : Option Bytes :=
  match command with
  | some (zfs :: mount :: operands) =>
    if zfs = bytes "zfs" ∧ mount = bytes "mount" then
      match operands.filter (· ≠ bytes "-l") with
      | [name] => some name
      | _ => none
    else none
  | _ => none

/-- The names and paths of a ZFS disk. -/
structure ZfsMount where
  mountPointRoot : List Char
  readOnly : Bool
  mountpoints : List Vmproxy.Mountpoint
  envPwds : List (Nat × Bytes)
  keyFilePath : Option (List Char)

namespace ZfsMount

variable (z : ZfsMount)

/-- `mount_datasets` for the disk. -/
def mountAll : Scripted (Option Int) := mountDatasets z.mountpoints z.envPwds z.keyFilePath

/-- What is asked of the commands: each has every name and path as one argument, the data sets that are mounted are those of the
list, and the pools that are exported are those of the list. -/
structure CommandsIntact (glob : Shell.Word → List Bytes) : Prop where
  imported : argv glob (importScript z.mountPointRoot z.readOnly) = some (importArgs z.mountPointRoot z.readOnly)
  issued : ∀ env, (scripts env z.mountAll).map (argv glob) <+: (operations z.keyFilePath [] z.mountpoints).map fun op => some op.args
  mounted : ∀ env status, z.mountAll.result env = .ok status →
    ((scripts env z.mountAll).map (argv glob)).filterMap mountedBy = z.mountpoints.map fun mp => utf8 mp.name
  exported : Shell.andList (zfsExportScript (uniquePools z.mountpoints)) =
    (uniquePools z.mountpoints).reverse.map fun pool => ["zpool".toList, "export".toList, pool]

end ZfsMount

/-- A name with the characters of the names of data sets: that of a pool, and then those of data sets in it. -/
def isDatasetName (name : List Char) : Bool :=
  name.head?.any Char.isAlpha && name.all fun c => c.isAlphanum || [' ', '_', '-', ':', '.', '/'].contains c

end Zfs

end Anylinuxfs
