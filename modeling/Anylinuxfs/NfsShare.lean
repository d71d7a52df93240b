import Anylinuxfs.Settings

/-!
# Mounting the NFS share on the host

`NfsShareSetup` (`cmd_mount.rs`) and the mounts of the exported subdirectories (`fsutil.rs`): which share is mounted where, and
the shell script that does it. Both kinds of mount build the same script around their own share and mount point.
-/

namespace Anylinuxfs

/-! ## Options -/

/-- `NfsOptions`: a `BTreeMap`, so a list that is sorted by its keys. -/
abbrev NfsOptions := List (Bytes × Bytes)

/-- `BTreeMap::insert`. -/
def NfsOptions.insert (key value : Bytes) : NfsOptions → NfsOptions
  | [] => [(key, value)]
  | (k, v) :: rest =>
    if key = k then (key, value) :: rest
    else if key < k then (key, value) :: (k, v) :: rest
    else (k, v) :: NfsOptions.insert key value rest

/-- `BTreeMap::extend`. -/
def NfsOptions.extend (opts : NfsOptions) (items : List (Bytes × Bytes)) : NfsOptions :=
  items.foldl (fun opts kv => NfsOptions.insert kv.1 kv.2 opts) opts

/-- `NOLOCK_KEY`. -/
def nolockKey : HostOs → Bytes
  | .macos => bytes "nolocks"
  | .linux => bytes "nolock"

/-- `NfsOptions::default`. -/
def NfsOptions.default (os : HostOs) : NfsOptions :=
  NfsOptions.extend [] ((match os with
    | .macos =>
      [(bytes "deadtimeout", bytes "45"), (bytes "nfc", []), (bytes "soft", []), (bytes "intr", []),
        (bytes "timeo", bytes "100"), (bytes "retrans", bytes "3")]
    | .linux => []) ++
    [(nolockKey os, []), (bytes "vers", bytes "3"), (bytes "port", bytes "2049"), (bytes "mountport", bytes "32767")])

/-- `NfsOptions::to_list`. -/
def NfsOptions.toList (opts : NfsOptions) : Bytes :=
  (bytes ",").intercalate (opts.map (fun kv => if kv.2 = [] then kv.1 else kv.1 ++ bytes "=" ++ kv.2))

/-! ## The share -/

/-- `NfsShareSetup`. -/
structure NfsShareSetup where
  config : MountConfig
  vmHost : Bytes
  sharePath : Bytes
  nfsOpts : NfsOptions

/-- `NfsShareSetup::new`. -/
def NfsShareSetup.new (os : HostOs) (config : MountConfig) (vmHost : Bytes) (mntDevInfo : DevInfo) (sharedVolume : Bool) :
    NfsShareSetup :=
  let shareName :=
    match config.customMountName with
    | some name => name
    | none => mntDevInfo.autoMountName
  let sharePath :=
    match config.action with
    | some action => if action.overrideNfsExport ≠ [] then utf8 action.overrideNfsExport else bytes "/mnt/" ++ shareName
    | none => bytes "/mnt/" ++ shareName
  let nfsOpts := NfsOptions.default os
  let nfsOpts := if sharedVolume then nfsOpts.filter (fun kv => kv.1 ≠ nolockKey os) else nfsOpts
  let nfsOpts := NfsOptions.extend nfsOpts (config.nfsOptions.map (fun s =>
    match splitOnce '=' s with
    | some (key, value) => (utf8 key, utf8 value)
    | none => (utf8 s, [])))
  ⟨config, vmHost, sharePath, nfsOpts⟩

/-- `MOUNT_BASE`. -/
def mountBase : HostOs → Bytes
  | .macos => bytes "Volumes"
  | .linux => bytes "mnt"

/-- The directory in which mount points are created. -/
def volumeBaseDir (os : HostOs) (config : MountConfig) : Bytes :=
  pathJoin (if config.common.sudoUid.isSome then bytes "/" else config.common.homeDir) (mountBase os)

/-- The name of a mount point that is created for a share. -/
def mountName (sharePath : Bytes) : Bytes :=
  if lastPiece slash sharePath = [] then bytes "root" else lastPiece slash sharePath

/-- The mount point in `NfsShareSetup::mount`. `taken` is how many of the paths that the loop tries in turn exist already. -/
def NfsShareSetup.mountPoint (os : HostOs) (setup : NfsShareSetup) (taken : Nat) : Bytes :=
  match setup.config.customMountPoint with
  | some mountPoint => mountPoint
  | none =>
    let base := volumeBaseDir os setup.config
    if taken = 0 then pathJoin base (mountName setup.sharePath)
    else pathJoin base (mountName setup.sharePath ++ bytes "-" ++ decimal taken)

/-- The remote side of a mount: `host:share`. -/
def remote (vmHost share : Bytes) : Bytes := vmHost ++ bytes ":" ++ share

/-- The shell script of a mount, with the options, the share and the mount point spliced in. -/
def mountScript (opts vmHost share mountPoint : Bytes) : Bytes :=
  bytes "mount -t nfs -o " ++ opts ++ bytes " \"" ++ remote vmHost share ++ bytes "\" \"" ++ mountPoint ++ bytes "\""

/-- The words that the script of a mount is meant to be. -/
def mountWords (opts vmHost share mountPoint : Bytes) : List Bytes :=
  [bytes "mount", bytes "-t", bytes "nfs", bytes "-o", opts, remote vmHost share, mountPoint]

/-- The script that `NfsShareSetup::mount` runs. -/
def NfsShareSetup.mount (os : HostOs) (setup : NfsShareSetup) (taken : Nat) : Bytes :=
  mountScript setup.nfsOpts.toList setup.vmHost setup.sharePath (setup.mountPoint os taken)

/-! ## Subdirectories -/

/-- `dirtrie::Node`. The map of the children is a list here, because they are visited in no particular order. -/
inductive DirTrie where
  | node (paths : Option (Bytes × Bytes)) (children : List (Bytes × DirTrie))

namespace DirTrie

/-- Change the child of a name, or make one. -/
def update (segment : Bytes) (f : DirTrie → DirTrie) : List (Bytes × DirTrie) → List (Bytes × DirTrie)
  | [] => [(segment, f (.node none []))]
  | (name, child) :: rest =>
    if name = segment then (name, f child) :: rest else (name, child) :: update segment f rest

/-- `dirtrie::Node::insert`, at the components of the path. -/
def insert (paths : Bytes × Bytes) : List Bytes → DirTrie → DirTrie
  | [], .node _ children => .node (some paths) children
  | segment :: rest, .node own children => .node own (update segment (insert paths rest) children)

mutual

/-- The mounts of `parallel_mount_recursive`: the relative path and the share of every node that has them. -/
def mounts : DirTrie → List (Bytes × Bytes)
  | .node paths children => paths.toList ++ mountsOf children

/-- The mounts of the children of a node. -/
def mountsOf : List (Bytes × DirTrie) → List (Bytes × Bytes)
  | [] => []
  | (_, child) :: rest => child.mounts ++ mountsOf rest

end

end DirTrie

/-- The path of an exported subdirectory under the share, as in `mount_nfs_subdirs`: empty when it does not lie there. -/
def subdirRelative (sharePathBase subdir : Bytes) : Bytes :=
  if sharePathBase.isPrefixOf subdir then
    match subdir.drop sharePathBase.length with
    | [] => []
    | c :: rest => if c = slash then rest else []
  else []

/-- The trie that `mount_nfs_subdirs` builds. -/
def subdirTrie (sharePathBase : Bytes) (subdirs : List Bytes) : DirTrie :=
  subdirs.foldl (fun trie subdir =>
    let relative := subdirRelative sharePathBase subdir
    trie.insert (relative, subdir) (components relative)) (.node none [])

/-- The mounts that `NfsShareSetup::mount_subdirectories` asks for: share and mount point of each. -/
def NfsShareSetup.subdirMounts (setup : NfsShareSetup) (exports : List (List Char)) (mountPoint : Bytes) : List (Bytes × Bytes) :=
  let additionalExports := (exports.map utf8).filter (· ≠ setup.sharePath)
  (subdirTrie setup.sharePath additionalExports).mounts.map (fun e => (e.2, pathJoin mountPoint e.1))

/-- The scripts that `NfsShareSetup::mount_subdirectories` runs, if none of them fails: each with the share that it is for. -/
def NfsShareSetup.mountSubdirectories (setup : NfsShareSetup) (exports : List (List Char)) (mountPoint : Bytes) :
    List (Bytes × Bytes) :=
  (setup.subdirMounts exports mountPoint).map (fun e => (e.1, mountScript setup.nfsOpts.toList setup.vmHost e.1 e.2))

end Anylinuxfs
