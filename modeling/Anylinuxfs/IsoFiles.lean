import Anylinuxfs.Text

/-!
# Files of a remote image

`FindFiles` of `remoteiso.go`: a path is split into names, which are followed from the root directory of the image. A Go string
is a list of bytes; a loop over it goes through its runes, and `string(char)` encodes a rune again.
-/

namespace Anylinuxfs

namespace RemoteIso

/-! ## Runes -/

/-- `utf8.DecodeRune`: the first rune of a text that is not empty, and the number of its bytes. A byte that begins no well-formed
sequence is read as U+FFFD. -/
def decodeRune (s : Bytes) : Char × Nat :=
  match s.toByteArray.utf8DecodeChar? 0 with
  | some c => (c, c.utf8Size)
  | none => ('\ufffd', 1)

/-- The runes of a text with the indices at which they begin, after `skip` more bytes of the last rune. -/
def runesFrom : Nat → Nat → Bytes → List (Nat × Char)
  | _, _, [] => []
  | skip + 1, i, _ :: rest => runesFrom skip (i + 1) rest
  | 0, i, b :: rest =>
    let (char, size) := decodeRune (b :: rest)
    (i, char) :: runesFrom (size - 1) (i + 1) rest

/-- What `range` goes through. -/
def runes (s : Bytes) : List (Nat × Char) := runesFrom 0 0 s

/-- A turn of the loop of `splitPath`: the parts and the part that has been begun. -/
def splitRune (path : Bytes) : List Bytes × Bytes → Nat × Char → List Bytes × Bytes := fun (parts, current) (i, char) =>
  let (parts, current) :=
    if char = '/' then
      if current ≠ [] then (parts ++ [current], []) else (parts, current)
    else (parts, current ++ String.utf8EncodeChar char)
  -- "Add last part if we're at the end"
  if i = path.length - 1 ∧ current ≠ [] then (parts ++ [current], current) else (parts, current)

/-- `splitPath`. -/
def splitPath (path : Bytes) : List Bytes := ((runes path).foldl (splitRune path) ([], [])).1

/-! ## Files -/

/-- `iso9660.File`: a directory, whose own records can be read like a file, a symbolic link or a regular file. -/
inductive IsoFile where
  | directory (name records : Bytes) (children : List IsoFile)
  | symlink (name symlinkTarget : Bytes)
  | regular (name content : Bytes)

/-- `File.Name`. -/
def IsoFile.name : IsoFile → Bytes
  | .directory name _ _ => name
  | .symlink name _ => name
  | .regular name _ => name

/-- `File.GetChildren`: an error unless the file is a directory. -/
def IsoFile.getChildren : IsoFile → Option (List IsoFile)
  | .directory _ _ children => some children
  | _ => none

/-- The first entry of a directory that has the name. -/
def IsoFile.child (current : IsoFile) (part : Bytes) : Option IsoFile := do
  let entries ← current.getChildren
  entries.find? fun entry => entry.name = part

/-- The file that is reached by following names. -/
def IsoFile.follow (current : IsoFile) (parts : List Bytes) : Option IsoFile := parts.foldlM IsoFile.child current

/-- `findFileByPath`. -/
def findFileByPath (root : IsoFile) (targetPath : Bytes) : Option IsoFile :=
  if targetPath = bytes "/" ∨ targetPath = [] then some root
  else root.follow ((splitPath targetPath).filter (· ≠ []))

/-- `FileEntry`. -/
structure FileEntry where
  file : IsoFile
  path : Bytes

/-- `FindFiles`. -/
def findFiles (root : IsoFile) (paths : List Bytes) : List FileEntry :=
  paths.filterMap fun targetPath => (findFileByPath root targetPath).map fun file => ⟨file, targetPath⟩

/-! ## What is asked of a path -/

/-- The components of a path that are not empty. -/
def names (path : Bytes) : List Bytes := (path.splitOn slash).filter (· ≠ [])

/-- A path is split into its components, and leads to what is reached by following all of them. -/
structure SplitsRight (path : Bytes) : Prop where
  parts : splitPath path = names path
  found : ∀ root, findFileByPath root path = root.follow (names path)

/-- The path is well-formed UTF-8, and its last character, if it has one, is of the ASCII range. -/
def EndsPlainly (path : Bytes) : Prop := ∃ text, path = utf8 text ∧ ∀ c ∈ text.getLast?, c.toNat < 0x80

end RemoteIso

end Anylinuxfs
