import Anylinuxfs.Text

/-!
# Disks of a Linux host

The whole disks that are listed on Linux: the names under `/sys/block` that `is_supported_disk_name` recognizes
(`diskutil/linux.rs`).
-/

namespace Anylinuxfs

namespace LinuxDisks

/-- What `/sys/block/<name>/loop/backing_file` reads as, if it can be read. -/
abbrev BackingFiles := List Char → Option (List Char)

/-- `loop_backing_file`. -/
def loopBackingFile (files : BackingFiles) (diskName : List Char) : Option (List Char) := do
  let s ← files diskName
  let trimmed := trim s
  if trimmed = [] then none else some trimmed

/-- `is_supported_disk_name`. -/
def isSupportedDiskName (files : BackingFiles) (name : List Char) : Bool :=
  if "sd".toList.isPrefixOf name || "vd".toList.isPrefixOf name || "xvd".toList.isPrefixOf name || "hd".toList.isPrefixOf name then
    -- "must be followed by a letter, not a digit"
    (name[if "xvd".toList.isPrefixOf name then 3 else 2]?).any Char.isAlpha
  else if "nvme".toList.isPrefixOf name then
    -- "keep only namespace nodes (no trailing partition)"
    name.contains 'n' && !name.contains 'p'
  else if "mmcblk".toList.isPrefixOf name then
    -- "no trailing 'p<part>'"
    !name.contains 'p'
  else if "loop".toList.isPrefixOf name then
    let rest := name.drop 4
    rest ≠ [] && rest.all Char.isDigit && (loopBackingFile files name).isSome
  else false

/-- `enumerate_physical_disks`: the names of the entries of `/sys/block`, without entries that cannot be read and names that are
no UTF-8. -/
def enumeratePhysicalDisks (files : BackingFiles) (entries : Option (List (Option (List Char)))) : List (List Char) :=
  match entries with
  | none => []
  | some entries => ((entries.filterMap id).filter (isSupportedDiskName files)).mergeSort fun a b => !decide (b < a)

/-! ## What is asked of a name -/

/-- What stands before the letters of a disk. -/
def letterPrefixes : List (List Char) := ["sd".toList, "vd".toList, "xvd".toList, "hd".toList]

/-- One or more digits. -/
def Digits (s : List Char) : Prop := s ≠ [] ∧ ∀ c ∈ s, c.isDigit = true

/-- One or more lower-case letters. -/
def Letters (s : List Char) : Prop := s ≠ [] ∧ ∀ c ∈ s, c.isLower = true

/-- `<ctrl>n<ns>`: a controller and a namespace. -/
def NamespaceNode (s : List Char) : Prop := ∃ ctrl ns, s = ctrl ++ 'n' :: ns ∧ Digits ctrl ∧ Digits ns

/-- The names of whole disks. -/
inductive WholeDisk (files : BackingFiles) : List Char → Prop
  | lettered {before letters : List Char} (hbefore : before ∈ letterPrefixes) (hletters : Letters letters) : WholeDisk files (before ++ letters)
  | nvme {rest : List Char} (hrest : NamespaceNode rest) : WholeDisk files ("nvme".toList ++ rest)
  | mmcblk {rest : List Char} (hrest : Digits rest) : WholeDisk files ("mmcblk".toList ++ rest)
  | loop {rest : List Char} (hrest : Digits rest) (hbacking : loopBackingFile files ("loop".toList ++ rest) ≠ none) :
    WholeDisk files ("loop".toList ++ rest)

/-- A name is recognized exactly if it is that of a whole disk, and no other name is listed. -/
structure NameRight (files : BackingFiles) (name : List Char) : Prop where
  recognized : isSupportedDiskName files name = true ↔ WholeDisk files name
  listed : ∀ entries, name ∈ enumeratePhysicalDisks files entries → WholeDisk files name

/-- The names for which a prefix, a letter and the absence of a `p` tell a whole disk: behind the prefix of a lettered disk is no
letter or nothing but lower-case letters, and behind `nvme` and `mmcblk` is a `p` or what belongs there. -/
structure Telling (name : List Char) : Prop where
  lettered : ∀ before ∈ letterPrefixes, ∀ rest, name = before ++ rest → (∃ c ∈ rest.head?, c.isAlpha = true) → Letters rest
  nvme : ∀ rest, name = "nvme".toList ++ rest → 'p' ∉ rest → NamespaceNode rest
  mmcblk : ∀ rest, name = "mmcblk".toList ++ rest → 'p' ∉ rest → Digits rest

end LinuxDisks

end Anylinuxfs
