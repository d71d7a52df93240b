import Anylinuxfs.IsoFiles
import Anylinuxfs.Lib.Loop
import Anylinuxfs.Lib.Saturate

/-!
# Downloads with dependencies

`downloadWithDependencies` of the FreeBSD bootstrap: the files that are asked for are downloaded from the image, then the targets of
links and the libraries that they name, level by level. What a server and the system make of a download, what `debug/elf` reads in a
file and the order in which a map is gone through are given.
-/

namespace Anylinuxfs

namespace Bootstrap

open RemoteIso

/-! ## Paths -/

/-- `strings.HasPrefix(path, "/")`. -/
def isRooted (path : Bytes) : Bool := [slash].isPrefixOf path

/-- What `filepath.Clean` makes of a component, behind those on the stack, the last one first. -/
def cleanPart (rooted : Bool) (stack : List Bytes) (part : Bytes) : List Bytes :=
  if part = [] ∨ part = bytes "." then stack
  else if part = bytes ".." then
    match stack with
    | [] => if rooted then [] else [part]
    | top :: rest => if top = bytes ".." then part :: stack else rest
  else part :: stack

/-- `filepath.Clean`. -/
def clean (path : Bytes) : Bytes :=
  let parts := ((path.splitOn slash).foldl (cleanPart (isRooted path)) []).reverse
  if isRooted path then slash :: [slash].intercalate parts
  else if parts = [] then bytes "." else [slash].intercalate parts

/-- `filepath.Join` of two elements: empty ones in front are left out. -/
def join (base path : Bytes) : Bytes :=
  if base ≠ [] then clean (base ++ slash :: path) else if path ≠ [] then clean path else []

/-- `filepath.Dir`. -/
def dir (path : Bytes) : Bytes := clean (path.reverse.dropWhile (· ≠ slash)).reverse

/-! ## Downloads -/

/-- The paths of the downloads so far, and whether they worked. -/
abbrev Downloads := List (Bytes × Bool)

/-- What is not in the hands of the program. -/
structure World where
  /-- What `ImportedLibraries` reads in a file: nothing if it is no ELF file. -/
  importedLibraries : Bytes → List Bytes
  /-- The calls that download a file work. -/
  works : Downloads → FileEntry → Bool
  /-- The keys of a map in the order in which they come: a map of libraries once for each base directory. -/
  order : Downloads → Option Bytes → List Bytes → List Bytes
  order_perm : ∀ downloads turn keys, (order downloads turn keys).Perm keys

/-- A local file. -/
inductive LocalFile where
  | symlink (target : Bytes)
  | regular (content : Bytes)

/-- The local file that a file of the image becomes; the target of a link must not be empty. -/
def localFile (baseDir : Bytes) : IsoFile → Option LocalFile
  | .symlink _ origTarget =>
    if origTarget = [] then none else some (.symlink (if isRooted origTarget then join baseDir origTarget else origTarget))
  | .directory _ records _ => some (.regular records)
  | .regular _ content => some (.regular content)

/-- `FileEntry.Download`: the local path and what is there then. -/
def download (world : World) (downloads : Downloads) (baseDir : Bytes) (entry : FileEntry) : Option (Bytes × LocalFile) :=
  if world.works downloads entry then (localFile baseDir entry.file).map fun file => (join baseDir entry.path, file) else none

/-- `getDependencies`. -/
def getDependencies (world : World) (filePath : Bytes) : LocalFile → List Bytes
  | .symlink target => [if isRooted target then target else clean (join (dir filePath) target)]
  | .regular content => world.importedLibraries content

/-- `LibraryBaseDirs`. -/
def libraryBaseDirs : List Bytes := [bytes "/lib", bytes "/usr/lib"]

/-- `downloader`, with the downloads so far. -/
structure Downloader where
  targetDir : Bytes
  remoteRoot : IsoFile
  finishedFiles : List Bytes
  downloads : Downloads

/-- `newDownloader`. -/
def newDownloader (targetDir : Bytes) (remoteRoot : IsoFile) : Downloader := ⟨targetDir, remoteRoot, [], []⟩

/-- The loop over the remote files: the keys of the maps are lists. -/
structure Scan where
  d : Downloader
  libraryDeps : List Bytes
  pathDeps : List Bytes

/-- A turn of the loop over the dependencies of a file. -/
def addDependency (s : Scan) (dep : Bytes) : Scan :=
  if isRooted dep then { s with pathDeps := s.pathDeps.insert dep } else { s with libraryDeps := s.libraryDeps.insert dep }

/-- A turn of the loop over the remote files. -/
def downloadEntry (world : World) (s : Scan) (entry : FileEntry) : Scan :=
  -- "Skipping already downloaded"
  if entry.path ∈ s.d.finishedFiles then s
  else
    match download world s.d.downloads s.d.targetDir entry with
    | none => { s with d := { s.d with downloads := s.d.downloads ++ [(entry.path, false)] } }
    | some (localPath, file) =>
      let d := { s.d with finishedFiles := s.d.finishedFiles ++ [entry.path], downloads := s.d.downloads ++ [(entry.path, true)] }
      (getDependencies world localPath file).foldl addDependency { s with d := d }

/-- The loops over the maps. -/
def possiblePaths (world : World) (s : Scan) : List Bytes :=
  libraryBaseDirs.flatMap (fun base => (world.order s.d.downloads (some base) s.libraryDeps).map (join base)) ++
    world.order s.d.downloads none s.pathDeps

/-- `downloadWithDependencies`, up to the call of itself with which it ends. -/
def downloadWithDependencies (world : World) : Downloader × List FileEntry → (Downloader × List FileEntry) ⊕ Downloader :=
  fun (d, remoteFiles) =>
    let s := remoteFiles.foldl (downloadEntry world) ⟨d, [], []⟩
    let foundLibraries := findFiles d.remoteRoot (possiblePaths world s)
    if foundLibraries ≠ [] then .inl (s.d, foundLibraries) else .inr s.d

/-! ## What is asked of the downloads -/

/-- The paths under which a dependency is looked for. -/
def candidates (dep : Bytes) : List Bytes := if isRooted dep then [dep] else libraryBaseDirs.map fun base => join base dep

/-- What a file depends on, by the directory of its copy: a link on its target, which is taken from this directory when it is
relative, and any other file on the libraries that it imports. -/
def dependenciesIn (world : World) (dirPath : Bytes) : LocalFile → List Bytes
  | .symlink target => [if isRooted target then target else clean (join dirPath target)]
  | .regular content => world.importedLibraries content

/-- The file at the path, when it has been downloaded, has the dependency. -/
def Needs (world : World) (targetDir : Bytes) (root : IsoFile) (path dep : Bytes) : Prop :=
  ∃ file ∈ findFileByPath root path, ∃ copy ∈ localFile targetDir file, dep ∈ dependenciesIn world (dir (join targetDir path)) copy

/-- The file at the path has a dependency that can be found at the other path. -/
def DependsOn (world : World) (targetDir : Bytes) (root : IsoFile) (path path' : Bytes) : Prop :=
  (∃ dep, Needs world targetDir root path dep ∧ path' ∈ candidates dep) ∧ (findFileByPath root path').isSome = true

/-- A path is asked for and can be found. -/
def Requested (root : IsoFile) (requested : List Bytes) (path : Bytes) : Prop :=
  path ∈ requested ∧ (findFileByPath root path).isSome = true

/-- No path is downloaded twice, and if every download works, what has been downloaded is what the requested files lead to. -/
structure Downloaded (world : World) (targetDir : Bytes) (root : IsoFile) (requested : List Bytes) (d : Downloader) : Prop where
  once : ((d.downloads.filter (·.2)).map Prod.fst).Nodup
  closure : (∀ call ∈ d.downloads, call.2 = true) → ∀ path, path ∈ d.finishedFiles ↔
    Saturate.Closure (DependsOn world targetDir root) (Requested root requested) path

end Bootstrap

end Anylinuxfs
