import Anylinuxfs.DiskImage

/-!
# The labels in the list

The name column of `render_plain_block_tree` (`diskutil/mod.rs`). A label that is longer than the column is cut at a number of
bytes, and where a character goes across the cut there is a panic.
-/

namespace Anylinuxfs

/-- `&s[..n]`, or a panic: `n` must be a byte index between two characters or at an end of the text. -/
def sliceTo : Nat → List Char → Option (List Char)
  | 0, _ => some []
  | _ + 1, [] => none
  | n + 1, c :: s => if c.utf8Size ≤ n + 1 then (sliceTo (n + 1 - c.utf8Size) s).map (c :: ·) else none

/-- `trunc_with_ellipsis`, for a length of at least three. -/
def truncWithEllipsis (s : List Char) (maxLen : Nat) : Option (List Char) :=
  if maxLen < (utf8 s).length then (sliceTo (maxLen - 3) s).map (· ++ "...".toList) else some s

namespace DiskImage

/-- A row of the list with its name column. -/
structure NamedRow extends Row where
  name : List Char
  deriving DecidableEq, Repr

/-- The row of a partition that is shown. -/
def namedPartitionRow (ident : List Char) (partition : PlainPartition) : Option NamedRow :=
  (truncWithEllipsis partition.label 23).map fun truncatedLabel =>
    ⟨⟨partition.number, partition.fsType, partitionIdent ident partition.number⟩, truncatedLabel⟩

/-- The rows of `render_plain_block_tree` with their names, or a panic. -/
def renderNamed (fsTypes : List (List Char)) (block : PlainBlockDevice) : Option (List NamedRow) :=
  match block.ptType with
  | some _ => (block.partitions.filter fun partition => partition.fsType ∈ fsTypes).mapM (namedPartitionRow block.ident)
  | none =>
    let fsType := block.fsType.getD []
    if fsType ∈ fsTypes then
      (truncWithEllipsis (block.label.getD []) 23).map fun truncatedLabel => [⟨⟨0, fsType, block.ident⟩, truncatedLabel⟩]
    else some []

/-! ## What is asked of the labels -/

/-- The labels that have a row. -/
def PlainBlockDevice.shownLabels (fsTypes : List (List Char)) (block : PlainBlockDevice) : List (List Char) :=
  match block.ptType with
  | some _ => (block.partitions.filter fun partition => partition.fsType ∈ fsTypes).map PlainPartition.label
  | none => if block.fsType.getD [] ∈ fsTypes then [block.label.getD []] else []

/-- What is shown for a label fits into the column, and is the label or the beginning of it with three dots. -/
structure ShownAs (label name : List Char) : Prop where
  fits : name.length ≤ 23
  form : name = label ∨ ∃ start, start <+: label ∧ name = start ++ "...".toList

/-- The label is cut without a panic. -/
def LabelListed (label : List Char) : Prop := ∃ name, truncWithEllipsis label 23 = some name ∧ ShownAs label name

/-- The block is listed without a panic, each label as it should be. -/
def LabelsListed (fsTypes : List (List Char)) (block : PlainBlockDevice) : Prop :=
  ∃ rows, renderNamed fsTypes block = some rows ∧ List.Forall₂ ShownAs (block.shownLabels fsTypes) (rows.map NamedRow.name)

/-- The label fits into the column, or a character of it starts at its twentieth byte. -/
def CutsBetween (label : List Char) : Prop :=
  (utf8 label).length ≤ 23 ∨ ∃ start, start <+: label ∧ (utf8 start).length = 20

end DiskImage

end Anylinuxfs
