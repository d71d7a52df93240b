import Anylinuxfs.Lemmas.Utf8
import Anylinuxfs.Theorems.ExportMounts

/-!
# The directory of a mount

A label is made a name for a directory under `/mnt`. The characters that a path gives a meaning to are replaced, but the two
names that a path gives a meaning to are not.
-/

namespace Anylinuxfs

open Vmproxy (underMnt utf8_underMnt)

/-- What is asked of a name that a label gives: it names a direct child of `/mnt`. -/
structure ConfinedName (name : List Char) : Prop where
  nonempty : name ≠ []
  noSlash : '/' ∉ name
  start : name.head? ≠ some '-'
  notDot : name ≠ ['.']
  notDots : name ≠ ['.', '.']
  child : directory (utf8 (underMnt name)) = [bytes "mnt", utf8 name]

/-- What is left of a label when the characters at its start that become hyphens are dropped. -/
def strippedLabel (label : List Char) : List Char := label.dropWhile (fun c => c = '-' ∨ c = '/')

/-! ## Names -/

theorem safeChar_eq_hyphen {c : Char} : safeChar c = '-' ↔ c = '-' ∨ c = '/' := by
  unfold safeChar
  by_cases hslash : c = '/'
  · simp [hslash]
  · by_cases hother : c = ' ' ∨ c = ':'
    · rcases hother with rfl | rfl <;> decide
    · simp [hslash, hother]

theorem safeChar_eq_dot {c : Char} : safeChar c = '.' ↔ c = '.' := by
  unfold safeChar
  by_cases hslash : c = '/'
  · simp [hslash]
  · by_cases hother : c = ' ' ∨ c = ':'
    · rcases hother with rfl | rfl <;> decide
    · simp [hslash, hother]

/-- The name that a label gives. -/
theorem pathSafeLabelName_eq_some {label name : List Char} :
    pathSafeLabelName label = some name ↔ name = (strippedLabel label).map safeChar ∧ name ≠ [] := by
  have hdrop : (label.map safeChar).dropWhile (· = '-') = (strippedLabel label).map safeChar := by
    rw [List.dropWhile_map, strippedLabel]
    congr 2
    funext c
    simp only [Function.comp_apply, safeChar_eq_hyphen]
  rw [pathSafeLabelName_eq, hdrop]
  cases (strippedLabel label).map safeChar with
  | nil => simp
  | cons c rest =>
    simp only [Option.some.injEq]
    constructor
    · rintro rfl
      exact ⟨rfl, List.cons_ne_nil c rest⟩
    · exact fun h => h.1.symm

theorem map_safeChar_eq_dot {rest : List Char} : rest.map safeChar = ['.'] ↔ rest = ['.'] := by
  rw [List.map_eq_singleton_iff]
  simp [safeChar_eq_dot]

theorem map_safeChar_eq_dots {rest : List Char} : rest.map safeChar = ['.', '.'] ↔ rest = ['.', '.'] := by
  rcases rest with _ | ⟨a, _ | ⟨b, _ | ⟨c, rest⟩⟩⟩ <;> simp [safeChar_eq_dot]

/-! ## The directory -/

/-- A name other than the two that a path gives a meaning to is a child of `/mnt`. -/
theorem directory_underMnt {name : List Char} (hne : name ≠ []) (hslash : '/' ∉ name) (hdot : name ≠ ['.'])
    (hdots : name ≠ ['.', '.']) : directory (utf8 (underMnt name)) = [bytes "mnt", utf8 name] := by
  have hmnt : bytes "mnt" ≠ [] ∧ slash ∉ bytes "mnt" ∧ bytes "mnt" ≠ bytes "." ∧ bytes "mnt" ≠ bytes ".." := by decide
  have hvalid : utf8 name ≠ [] ∧ slash ∉ utf8 name ∧ utf8 name ≠ bytes "." ∧ utf8 name ≠ bytes ".." :=
    ⟨fun h => hne (utf8_eq_nil h), fun h => hslash (mem_utf8_iff_of_ascii (a := '/') (by decide) |>.1 h),
      fun h => hdot (utf8_injective h), fun h => hdots (utf8_injective h)⟩
  have hpath : utf8 (underMnt name) = pathText true [⟨bytes "mnt", hmnt⟩, ⟨utf8 name, hvalid⟩] := by
    have hbase : bytes "/mnt/" = slash :: bytes "mnt" ++ [slash] := by decide
    rw [utf8_underMnt, hbase]
    simp [pathText, List.intercalate]
  rw [hpath, directory_pathText]
  rfl

/-- Every name that a label gives is confined, exactly if the label without the hyphens and slashes at its start is neither `.` nor
`..`. -/
theorem confinedName_iff (label : List Char) : (∀ name, pathSafeLabelName label = some name → ConfinedName name) ↔
    strippedLabel label ≠ ['.'] ∧ strippedLabel label ≠ ['.', '.'] := by
  constructor
  · intro h
    refine ⟨fun hdot => ?_, fun hdots => ?_⟩
    · exact (h ['.'] (pathSafeLabelName_eq_some.2 ⟨(map_safeChar_eq_dot.2 hdot).symm, List.cons_ne_nil _ _⟩)).notDot rfl
    · exact (h ['.', '.'] (pathSafeLabelName_eq_some.2 ⟨(map_safeChar_eq_dots.2 hdots).symm, List.cons_ne_nil _ _⟩)).notDots rfl
  · rintro ⟨hdot, hdots⟩ name hname
    obtain ⟨heq, hne⟩ := pathSafeLabelName_eq_some.1 hname
    have hsafe := (pathSafeLabelName_spec hname).1
    have hslash : '/' ∉ name := fun hmem => (hsafe.chars '/' hmem).1 rfl
    have hnotDot : name ≠ ['.'] := fun h => hdot (map_safeChar_eq_dot.1 (heq.symm.trans h))
    have hnotDots : name ≠ ['.', '.'] := fun h => hdots (map_safeChar_eq_dots.1 (heq.symm.trans h))
    exact ⟨hne, hslash, hsafe.start, hnotDot, hnotDots, directory_underMnt hne hslash hnotDot hnotDots⟩

/-- A label of two dots: the directory is the one above `/mnt`. -/
theorem confinedName_false : ¬ ∀ label name, pathSafeLabelName label = some name → ConfinedName name :=
  fun h => (h ['-', '.', '.'] ['.', '.'] (by decide)).notDots rfl

end Anylinuxfs
