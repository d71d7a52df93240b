import Anylinuxfs.Lemmas.Utf8
import Anylinuxfs.ListLabel

/-!
# The list and its labels

The column is counted in characters, the label in bytes, and the label is cut at a byte: this is right exactly for a label that is
short enough or has a character that starts there.
-/

namespace Anylinuxfs

/-! ## Cutting a text -/

theorem length_utf8_cons (c : Char) (s : List Char) : (utf8 (c :: s)).length = c.utf8Size + (utf8 s).length := by
  rw [utf8_cons, List.length_append, String.length_utf8EncodeChar]

/-- A text has at least as many bytes as characters. -/
theorem length_le_length_utf8 (s : List Char) : s.length ≤ (utf8 s).length := by
  induction s with
  | nil => exact Nat.le_refl 0
  | cons c s ih =>
    have hpos := c.utf8Size_pos
    rw [length_utf8_cons, List.length_cons]
    omega

/-- What is before a byte index is the beginning of the text with that many bytes. -/
theorem sliceTo_eq_some {n : Nat} {s t : List Char} : sliceTo n s = some t ↔ t <+: s ∧ (utf8 t).length = n := by
  induction s generalizing n t with
  | nil =>
    rw [List.prefix_nil]
    cases n with
    | zero =>
      rw [sliceTo, Option.some.injEq]
      exact ⟨fun h => ⟨h.symm, by rw [← h]; rfl⟩, fun h => h.1.symm⟩
    | succ n =>
      refine iff_of_false nofun ?_
      rintro ⟨rfl, h⟩
      cases h
  | cons c s ih =>
    cases n with
    | zero =>
      rw [sliceTo, Option.some.injEq]
      constructor
      · rintro rfl
        exact ⟨List.nil_prefix, rfl⟩
      · rintro ⟨-, h⟩
        exact (utf8_eq_nil (List.length_eq_zero_iff.1 h)).symm
    | succ n =>
      cases t with
      | nil =>
        refine iff_of_false ?_ fun h => nomatch h.2
        rw [sliceTo]
        split <;> simp
      | cons d t =>
        rw [sliceTo, List.cons_prefix_cons, length_utf8_cons]
        have hd := d.utf8Size_pos
        by_cases hle : c.utf8Size ≤ n + 1
        · rw [if_pos hle, Option.map_eq_some_iff]
          constructor
          · rintro ⟨u, hu, heq⟩
            obtain ⟨rfl, rfl⟩ := List.cons.inj heq
            obtain ⟨hpre, hlen⟩ := ih.1 hu
            exact ⟨⟨rfl, hpre⟩, by omega⟩
          · rintro ⟨⟨rfl, hpre⟩, hlen⟩
            exact ⟨t, ih.2 ⟨hpre, by omega⟩, rfl⟩
        · rw [if_neg hle]
          refine iff_of_false nofun ?_
          rintro ⟨⟨rfl, -⟩, hlen⟩
          omega

namespace DiskImage

/-! ## One label -/

theorem truncWithEllipsis_eq_some {label name : List Char} : truncWithEllipsis label 23 = some name ↔
    ((utf8 label).length ≤ 23 ∧ name = label) ∨
      (23 < (utf8 label).length ∧ ∃ start, start <+: label ∧ (utf8 start).length = 20 ∧ name = start ++ "...".toList) := by
  unfold truncWithEllipsis
  by_cases h : 23 < (utf8 label).length
  · rw [if_pos h, Option.map_eq_some_iff, or_iff_right (fun hle => absurd hle.1 (Nat.not_le.2 h)), and_iff_right h]
    refine exists_congr fun start => ?_
    rw [sliceTo_eq_some, and_assoc, eq_comm (a := name)]
  · rw [if_neg h, Option.some.injEq, or_iff_left (fun hlt => absurd hlt.1 h), and_iff_right (Nat.le_of_not_lt h), eq_comm]

/-- Where there is no panic, the name is right. -/
theorem shownAs_of_trunc {label name : List Char} (h : truncWithEllipsis label 23 = some name) : ShownAs label name := by
  rcases truncWithEllipsis_eq_some.1 h with ⟨hle, rfl⟩ | ⟨-, start, hpre, hlen, rfl⟩
  · exact ⟨Nat.le_trans (length_le_length_utf8 name) hle, .inl rfl⟩
  · refine ⟨?_, .inr ⟨start, hpre, rfl⟩⟩
    have hstart := length_le_length_utf8 start
    have hdots : "...".toList.length = 3 := rfl
    rw [List.length_append]
    omega

theorem isSome_trunc_iff {label : List Char} : (truncWithEllipsis label 23).isSome ↔ CutsBetween label := by
  rw [Option.isSome_iff_exists]
  constructor
  · rintro ⟨name, h⟩
    rcases truncWithEllipsis_eq_some.1 h with ⟨hle, -⟩ | ⟨-, start, hpre, hlen, -⟩
    · exact .inl hle
    · exact .inr ⟨start, hpre, hlen⟩
  · intro h
    by_cases hle : (utf8 label).length ≤ 23
    · exact ⟨label, truncWithEllipsis_eq_some.2 (.inl ⟨hle, rfl⟩)⟩
    · obtain ⟨start, hpre, hlen⟩ := h.resolve_left hle
      exact ⟨_, truncWithEllipsis_eq_some.2 (.inr ⟨Nat.lt_of_not_le hle, start, hpre, hlen, rfl⟩)⟩

theorem labelListed_iff_isSome {label : List Char} : LabelListed label ↔ (truncWithEllipsis label 23).isSome := by
  rw [Option.isSome_iff_exists]
  exact exists_congr fun name => ⟨fun h => h.1, fun h => ⟨h, shownAs_of_trunc h⟩⟩

/-! ## A block -/

/-- Partitions are shown one by one, and one panic ends the list. -/
theorem mapM_namedPartitionRow (ident : List Char) (partitions : List PlainPartition) :
    (∃ rows, partitions.mapM (namedPartitionRow ident) = some rows ∧
      List.Forall₂ ShownAs (partitions.map PlainPartition.label) (rows.map NamedRow.name)) ↔
    ∀ partition ∈ partitions, LabelListed partition.label := by
  induction partitions with
  | nil =>
    refine iff_of_true ⟨[], rfl, .nil⟩ ?_
    nofun
  | cons partition rest ih =>
    rw [List.forall_mem_cons, ← ih]
    constructor
    · rintro ⟨rows, h, hshown⟩
      rw [List.mapM_cons, Option.bind_eq_bind, Option.bind_eq_some_iff] at h
      obtain ⟨row, hrow, h⟩ := h
      rw [Option.bind_eq_bind, Option.bind_eq_some_iff] at h
      obtain ⟨others, hothers, h⟩ := h
      obtain rfl := Option.some.inj h
      obtain ⟨name, hname, rfl⟩ := Option.map_eq_some_iff.1 hrow
      cases hshown with
      | cons hhead htail => exact ⟨⟨name, hname, hhead⟩, others, hothers, htail⟩
    · rintro ⟨⟨name, hname, hhead⟩, rows, hrows, htail⟩
      refine ⟨⟨⟨partition.number, partition.fsType, partitionIdent ident partition.number⟩, name⟩ :: rows, ?_, .cons hhead htail⟩
      rw [List.mapM_cons, namedPartitionRow, hname, hrows]
      rfl

/-- A block is listed exactly if each of its labels is. -/
theorem labelsListed_iff_forall (fsTypes : List (List Char)) (block : PlainBlockDevice) :
    LabelsListed fsTypes block ↔ ∀ label ∈ block.shownLabels fsTypes, LabelListed label := by
  unfold LabelsListed renderNamed PlainBlockDevice.shownLabels
  cases block.ptType with
  | some _ =>
    simp only
    rw [mapM_namedPartitionRow, List.forall_mem_map]
  | none =>
    simp only
    split
    · rw [List.forall_mem_singleton]
      constructor
      · rintro ⟨rows, h, hshown⟩
        obtain ⟨name, hname, rfl⟩ := Option.map_eq_some_iff.1 h
        cases hshown with
        | cons hhead _ => exact ⟨name, hname, hhead⟩
      · rintro ⟨name, hname, hhead⟩
        refine ⟨[⟨⟨0, block.fsType.getD [], block.ident⟩, name⟩], ?_, .cons hhead .nil⟩
        rw [hname]
        rfl
    · exact iff_of_true ⟨[], rfl, .nil⟩ nofun

/-- The rows without their names are those of the list. -/
theorem toRow_renderNamed {fsTypes : List (List Char)} {block : PlainBlockDevice} {rows : List NamedRow}
    (h : renderNamed fsTypes block = some rows) : rows.map NamedRow.toRow = renderPlainBlockTree fsTypes block := by
  unfold renderNamed at h
  unfold renderPlainBlockTree
  cases hpt : block.ptType with
  | none =>
    rw [hpt] at h
    simp only at h ⊢
    split at h
    · obtain ⟨name, -, rfl⟩ := Option.map_eq_some_iff.1 h
      rw [if_pos ‹_›]
      rfl
    · obtain rfl := Option.some.inj h
      rw [if_neg ‹_›]
      rfl
  | some _ =>
    rw [hpt] at h
    simp only at h ⊢
    generalize block.partitions = partitions at h ⊢
    induction partitions generalizing rows with
    | nil =>
      obtain rfl := Option.some.inj h
      rfl
    | cons partition rest ih =>
      rw [List.filterMap_cons, partitionRow]
      by_cases hmem : partition.fsType ∈ fsTypes
      · rw [List.filter_cons_of_pos (by simpa using hmem), List.mapM_cons, Option.bind_eq_bind, Option.bind_eq_some_iff] at h
        obtain ⟨row, hrow, h⟩ := h
        rw [Option.bind_eq_bind, Option.bind_eq_some_iff] at h
        obtain ⟨others, hothers, h⟩ := h
        obtain rfl := Option.some.inj h
        obtain ⟨name, -, rfl⟩ := Option.map_eq_some_iff.1 hrow
        rw [if_pos hmem, List.map_cons, ih hothers]
      · rw [List.filter_cons_of_neg (by simpa using hmem)] at h
        rw [if_neg hmem, ih h]

/-! ## Every label -/

/-- A label, or the labels of a block, are listed without a panic and as they should be, exactly if each label that is shown fits
into the column or has a character that starts at its twentieth byte. -/
theorem labelsListed_iff (label : List Char) (fsTypes : List (List Char)) (block : PlainBlockDevice) :
    (LabelListed label ↔ CutsBetween label) ∧
      (LabelsListed fsTypes block ↔ ∀ label ∈ block.shownLabels fsTypes, CutsBetween label) := by
  have hlabel : ∀ label, LabelListed label ↔ CutsBetween label := fun label =>
    labelListed_iff_isSome.trans isSome_trunc_iff
  refine ⟨hlabel label, ?_⟩
  rw [labelsListed_iff_forall]
  exact forall₂_congr fun label _ => hlabel label

/-- A letter and twelve accented ones: the tenth of these goes across the cut. -/
theorem labelListed_false : ¬ ∀ label, LabelListed label := by
  intro h
  have hsome := labelListed_iff_isSome.1 (h ('a' :: List.replicate 12 'é'))
  revert hsome
  decide

end DiskImage

end Anylinuxfs
