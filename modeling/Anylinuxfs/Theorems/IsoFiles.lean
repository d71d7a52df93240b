import Anylinuxfs.Lemmas.IsoFiles

/-!
# Paths of a remote image

The last component of a path is dropped if it ends in a character of more than one byte, and bytes that are no UTF-8 are replaced.
-/

namespace Anylinuxfs

namespace RemoteIso

variable {path : Bytes}

/-- A path is left as it is if all of its components are. -/
theorem reencode_eq_self (h : (names path).map reencode = names path) : reencode path = path := by
  have hnames : ∀ piece ∈ names path, reencode piece = piece := List.map_inj_left.1 (h.trans (List.map_id _).symm)
  have hpieces : (path.splitOn slash).map reencode = path.splitOn slash := by
    refine (List.map_congr_left fun piece hpiece => ?_).trans (List.map_id _)
    by_cases hne : piece = []
    · rw [hne]
      rfl
    · exact hnames piece (List.mem_filter.2 ⟨hpiece, decide_eq_true hne⟩)
  have hpath : [slash].intercalate (path.splitOn slash) = path := List.intercalate_splitOn slash
  rw [← hpath, reencode_intercalate, hpieces]

/-- The last character of a text is a single byte exactly if it is of the ASCII range. -/
theorem utf8_concat_end {text : List Char} {c : Char} : (utf8 text).length + 1 = (utf8 (text ++ [c])).length ↔ c.toNat < 0x80 := by
  have hlen : (utf8 [c]).length = c.utf8Size := by
    rw [utf8_cons, List.length_append, String.length_utf8EncodeChar]
    rfl
  rw [utf8_append, List.length_append, hlen, Nat.add_left_cancel_iff, eq_comm, Char.utf8Size_eq_one_iff, UInt32.le_iff_toNat_le]
  exact Nat.lt_succ_iff.symm

theorem getLast?_runes_utf8 (text : List Char) (c : Char) : (runes (utf8 (text ++ [c]))).getLast? = some ((utf8 text).length, c) := by
  rw [runes_utf8_concat, List.getLast?_concat]

/-- `splitPath` finds the components exactly of the paths that end plainly. -/
theorem splitPath_eq_names_iff (path : Bytes) : splitPath path = names path ↔ EndsPlainly path := by
  constructor
  · intro h
    cases hlast : (runes path).getLast? with
    | none =>
      rw [eq_nil_of_getLast?_runesFrom hlast]
      exact ⟨[], rfl, nofun⟩
    | some p =>
      by_cases hend : p.1 + 1 = path.length
      · -- no component is changed, so the path is its characters
        have hsplit := splitPath_of_byte hlast hend
        rw [h, names_reencode] at hsplit
        have hself : utf8 (chars path) = path := reencode_eq_self hsplit.symm
        refine ⟨chars path, hself.symm, fun d hd => ?_⟩
        obtain ⟨text, htext⟩ := List.getLast?_eq_some_iff.1 hd
        rw [htext] at hself
        rw [← hself, getLast?_runes_utf8] at hlast
        rw [← hself, ← Option.some.inj hlast] at hend
        exact utf8_concat_end.1 hend
      · -- a component is missing
        obtain ⟨part, hsplit⟩ := splitPath_of_bytes hlast hend
        rw [h, names_reencode] at hsplit
        have hlen := congrArg List.length hsplit
        rw [List.length_append, List.length_map, List.length_singleton] at hlen
        omega
  · rintro ⟨text, rfl, hascii⟩
    cases text using List.reverseRecOn with
    | nil => rfl
    | append_singleton text c =>
      have hend : (utf8 text).length + 1 = (utf8 (text ++ [c])).length :=
        utf8_concat_end.2 (hascii c (by rw [List.getLast?_concat]; rfl))
      rw [splitPath_of_byte (getLast?_runes_utf8 text c) hend, reencode_utf8]

/-- What is found at a path whose components are found. -/
theorem findFileByPath_of_splitPath (h : splitPath path = names path) (root : IsoFile) :
    findFileByPath root path = root.follow (names path) := by
  rw [findFileByPath]
  by_cases hroot : path = bytes "/" ∨ path = []
  · rw [if_pos hroot]
    rcases hroot with rfl | rfl
    · rfl
    · rfl
  · rw [if_neg hroot, h, names, List.filter_filter]
    simp only [Bool.and_self]

/-- A path is split into all of its components and leads to the file that they name exactly if it is well-formed and does not end in
a character of more than one byte. -/
theorem splitsRight_iff (path : Bytes) : SplitsRight path ↔ EndsPlainly path :=
  ⟨fun h => (splitPath_eq_names_iff path).1 h.parts, fun h =>
    have hparts := (splitPath_eq_names_iff path).2 h
    ⟨hparts, findFileByPath_of_splitPath hparts⟩⟩

/-- The last component is dropped, and the directory is found. -/
theorem splitsRight_false : ¬ ∀ path, SplitsRight path := by
  intro h
  exact absurd (h (bytes "/lib/é")).parts (by decide)

end RemoteIso

end Anylinuxfs
