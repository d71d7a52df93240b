import Anylinuxfs.Bootstrap
import Anylinuxfs.Lemmas.IsoFiles
import Mathlib.Data.List.TakeWhile
import Mathlib.Data.Set.Finite.List
import Mathlib.Data.Set.Finite.Lattice

/-!
# Lemmas about downloads

The directory of the local copy of a file that can be found is no longer than the image is large, and the rest of what a dependency
is made of is in the image or in a library's name. So there are only finitely many paths on which a file can depend.
-/

namespace Anylinuxfs

namespace Bootstrap

open RemoteIso

variable {parts stack : List Bytes} {part path : Bytes} {rooted : Bool} {root file : IsoFile}

/-! ## Components -/

/-- The length of components with a slash for each. -/
def textLength (parts : List Bytes) : Nat := (parts.map fun part => part.length + 1).sum

theorem textLength_cons (part : Bytes) (parts : List Bytes) : textLength (part :: parts) = part.length + 1 + textLength parts :=
  List.sum_cons

theorem textLength_append (parts parts' : List Bytes) : textLength (parts ++ parts') = textLength parts + textLength parts' := by
  rw [textLength, List.map_append, List.sum_append]
  rfl

theorem textLength_reverse (parts : List Bytes) : textLength parts.reverse = textLength parts := by
  rw [textLength, List.map_reverse, List.sum_reverse]
  rfl

theorem textLength_tail_le (parts : List Bytes) : textLength parts.tail ≤ textLength parts := by
  cases parts with
  | nil => exact Nat.le_refl _
  | cons part parts =>
    rw [List.tail_cons, textLength_cons]
    exact Nat.le_add_left _ _

theorem textLength_le_map_reencode (parts : List Bytes) : textLength parts ≤ textLength (parts.map reencode) := by
  induction parts with
  | nil => exact Nat.le_refl _
  | cons part parts ih =>
    rw [List.map_cons, textLength_cons, textLength_cons]
    have hpart := length_le_length_reencode part
    omega

theorem length_intercalate_le (parts : List Bytes) : ([slash].intercalate parts).length ≤ textLength parts := by
  induction parts with
  | nil => exact Nat.le_refl _
  | cons part parts ih =>
    rw [textLength_cons]
    cases parts with
    | nil =>
      rw [List.intercalate_singleton]
      omega
    | cons part' parts =>
      rw [List.intercalate_cons_cons, List.length_append, List.length_append, List.length_singleton]
      omega

/-! ## The cleaning of paths -/

/-- A component is dropped, put on the stack, or takes one from it. -/
theorem cleanPart_cases (rooted : Bool) (stack : List Bytes) (part : Bytes) :
    cleanPart rooted stack part = stack ∨ cleanPart rooted stack part = part :: stack ∨ cleanPart rooted stack part = stack.tail := by
  rw [cleanPart.eq_def]
  split
  · exact .inl rfl
  · split
    · cases stack with
      | nil =>
        cases rooted with
        | false => exact .inr (.inl rfl)
        | true => exact .inl rfl
      | cons top rest =>
        dsimp only
        split
        · exact .inr (.inl rfl)
        · exact .inr (.inr rfl)
    · exact .inr (.inl rfl)

theorem cleanPart_nil (rooted : Bool) (stack : List Bytes) : cleanPart rooted stack [] = stack := by
  rw [cleanPart.eq_def]
  exact if_pos (.inl rfl)

theorem textLength_cleanPart_le (rooted : Bool) (stack : List Bytes) (part : Bytes) :
    textLength (cleanPart rooted stack part) ≤ textLength stack + (part.length + 1) := by
  have htail := textLength_tail_le stack
  rcases cleanPart_cases rooted stack part with h | h | h
  · rw [h]
    omega
  · rw [h, textLength_cons]
    omega
  · rw [h]
    omega

/-- Below the last component is no more than there was before. -/
theorem textLength_tail_cleanPart_le (rooted : Bool) (stack : List Bytes) (part : Bytes) :
    textLength (cleanPart rooted stack part).tail ≤ textLength stack := by
  have htail := textLength_tail_le stack
  have htail' := textLength_tail_le stack.tail
  rcases cleanPart_cases rooted stack part with h | h | h
  · rwa [h]
  · rw [h, List.tail_cons]
  · rw [h]
    omega

theorem textLength_foldl_cleanPart_le (rooted : Bool) (stack parts : List Bytes) :
    textLength (parts.foldl (cleanPart rooted) stack) ≤ textLength stack + textLength parts := by
  induction parts generalizing stack with
  | nil => exact Nat.le_refl _
  | cons part parts ih =>
    have hrest := ih (cleanPart rooted stack part)
    have hpart := textLength_cleanPart_le rooted stack part
    rw [List.foldl_cons, textLength_cons]
    omega

theorem mem_foldl_cleanPart (h : part ∈ parts.foldl (cleanPart rooted) stack) : part ∈ stack ∨ part ∈ parts := by
  induction parts generalizing stack with
  | nil => exact .inl h
  | cons part' parts ih =>
    rcases ih h with hstack | hparts
    · rcases cleanPart_cases rooted stack part' with hstep | hstep | hstep
      · exact .inl (hstep ▸ hstack)
      · rw [hstep] at hstack
        rcases List.mem_cons.1 hstack with rfl | hstack
        · exact .inr List.mem_cons_self
        · exact .inl hstack
      · rw [hstep] at hstack
        exact .inl (List.mem_of_mem_tail hstack)
    · exact .inr (List.mem_cons_of_mem _ hparts)

/-- Empty components are dropped. -/
theorem foldl_cleanPart_splitOn (rooted : Bool) (stack : List Bytes) (path : Bytes) :
    (path.splitOn slash).foldl (cleanPart rooted) stack = (names path).foldl (cleanPart rooted) stack := by
  rw [names, List.foldl_filter]
  refine List.foldl_ext _ _ _ fun stack part _ => ?_
  by_cases hpart : part = []
  · rw [hpart, cleanPart_nil]
    rfl
  · rw [if_pos (decide_eq_true hpart)]

/-- The components of a rooted path that stay, the last one first. -/
def cleanStack (path : Bytes) : List Bytes := (names path).foldl (cleanPart true) []

theorem clean_of_isRooted (h : isRooted path = true) : clean path = slash :: [slash].intercalate (cleanStack path).reverse := by
  rw [clean, if_pos h, h, foldl_cleanPart_splitOn]
  rfl

theorem isRooted_cons (path : Bytes) : isRooted (slash :: path) = true := by
  rw [isRooted, List.isPrefixOf_cons_cons, beq_self_eq_true, List.isPrefixOf_nil_left]
  rfl

theorem length_clean_le (h : isRooted path = true) : (clean path).length ≤ 1 + textLength (names path) := by
  have hclean := length_intercalate_le (cleanStack path).reverse
  have hstack := textLength_foldl_cleanPart_le true [] (names path)
  have hnil : textLength [] = 0 := rfl
  rw [textLength_reverse] at hclean
  rw [clean_of_isRooted h, List.length_cons]
  rw [cleanStack] at hclean ⊢
  omega

/-! ## Directories -/

theorem names_cons_slash (path : Bytes) : names (slash :: path) = names path := names_append_slash [] path

/-- The text of components, with a slash in front of each. -/
theorem cons_intercalate (parts : List Bytes) (part : Bytes) :
    slash :: [slash].intercalate (parts ++ [part]) = (parts.flatMap fun part => slash :: part) ++ slash :: part := by
  induction parts with
  | nil => rw [List.nil_append, List.intercalate_singleton, List.flatMap_nil, List.nil_append]
  | cons part' parts ih =>
    obtain ⟨first, rest, hrest⟩ := List.exists_cons_of_ne_nil (List.append_ne_nil_of_right_ne_nil parts (List.cons_ne_nil part []))
    rw [List.cons_append, hrest, List.intercalate_cons_cons, ← hrest, List.append_assoc, List.singleton_append, ih, List.flatMap_cons,
      List.append_assoc, List.cons_append]

theorem names_flatMap (h : ∀ part ∈ parts, slash ∉ part ∧ part ≠ []) : names (parts.flatMap fun part => slash :: part) = parts := by
  induction parts using List.reverseRecOn with
  | nil => rfl
  | append_singleton parts part ih =>
    obtain ⟨hslash, hne⟩ := h part (List.mem_append_right _ List.mem_cons_self)
    rw [List.flatMap_append, List.flatMap_singleton, names_append_slash, ih fun p hp => h p (List.mem_append_left _ hp),
      names_of_notMem hslash hne]

theorem dir_append (hslash : slash ∉ part) : dir (path ++ slash :: part) = clean (path ++ [slash]) := by
  have hdrop : part.reverse.dropWhile (· ≠ slash) = [] :=
    List.dropWhile_eq_nil_iff.2 fun b hb => decide_eq_true fun heq => hslash (heq ▸ List.mem_reverse.1 hb)
  rw [dir, List.reverse_append, List.reverse_cons, List.append_assoc, List.dropWhile_append, hdrop]
  simp

theorem mem_names (h : part ∈ names path) : slash ∉ part ∧ part ≠ [] := by
  obtain ⟨hmem, hne⟩ := List.mem_filter.1 h
  exact ⟨Pattern.notMem_of_mem_splitOn hmem, of_decide_eq_true hne⟩

/-- The directory of a clean path is no longer than the components in front of the last one. -/
theorem length_dir_clean_le (h : isRooted path = true) : (dir (clean path)).length ≤ 1 + textLength (cleanStack path).tail := by
  have hmem : ∀ part ∈ cleanStack path, slash ∉ part ∧ part ≠ [] := fun part hpart =>
    mem_names ((mem_foldl_cleanPart hpart).resolve_left List.not_mem_nil)
  rw [clean_of_isRooted h]
  cases hstack : cleanStack path with
  | nil => exact Nat.le_add_right 1 _
  | cons last parts =>
    rw [hstack] at hmem
    have hparts : ∀ part ∈ parts.reverse, slash ∉ part ∧ part ≠ [] := fun part hpart =>
      hmem part (List.mem_cons_of_mem last (List.mem_reverse.1 hpart))
    have hrooted : isRooted ((parts.reverse.flatMap fun part => slash :: part) ++ [slash]) = true := by
      cases parts.reverse with
      | nil => exact isRooted_cons []
      | cons first rest => exact isRooted_cons _
    have hlen := length_clean_le hrooted
    rw [names_append_slash, names_flatMap hparts, textLength_append, textLength_reverse] at hlen
    rw [List.reverse_cons, cons_intercalate, dir_append (hmem last List.mem_cons_self).1]
    exact hlen

/-! ## Files that can be found -/

/-- All components are followed, or all but the last one. -/
theorem splitPath_cases (path : Bytes) :
    (names path).map reencode = splitPath path ∨ ∃ part, (names path).map reencode = splitPath path ++ [part] := by
  rw [← names_reencode]
  cases hlast : (runes path).getLast? with
  | none =>
    rw [eq_nil_of_getLast?_runesFrom hlast]
    exact .inl rfl
  | some p =>
    by_cases hend : p.1 + 1 = path.length
    · exact .inl (splitPath_of_byte hlast hend).symm
    · exact .inr (splitPath_of_bytes hlast hend)

/-- The directory of the local copy is made of components that are followed. -/
theorem length_dir_join_le (path : Bytes) : (dir (join (bytes "/") path)).length ≤ 1 + textLength (splitPath path) := by
  have hjoin : join (bytes "/") path = clean (slash :: slash :: path) := rfl
  have hstack : cleanStack (slash :: slash :: path) = cleanStack path := by
    rw [cleanStack, names_cons_slash, names_cons_slash]
    rfl
  have hdir := length_dir_clean_le (isRooted_cons (slash :: path))
  rw [hjoin]
  rw [hstack] at hdir
  suffices h : textLength (cleanStack path).tail ≤ textLength (splitPath path) by omega
  have hnil : textLength [] = 0 := rfl
  rcases splitPath_cases path with hsplit | ⟨part, hsplit⟩
  · have htail := textLength_tail_le (cleanStack path)
    have hclean := textLength_foldl_cleanPart_le true [] (names path)
    have hreencode := textLength_le_map_reencode (names path)
    rw [hsplit] at hreencode
    rw [← cleanStack] at hclean
    omega
  · obtain ⟨parts, last, hnames, hparts, hlast⟩ := List.map_eq_append_iff.1 hsplit
    obtain ⟨part', rfl, -⟩ := List.map_eq_singleton_iff.1 hlast
    have htail := textLength_tail_cleanPart_le true (parts.foldl (cleanPart true) []) part'
    have hclean := textLength_foldl_cleanPart_le true [] parts
    have hreencode := textLength_le_map_reencode parts
    rw [hparts] at hreencode
    rw [cleanStack, hnames, List.foldl_append, List.foldl_cons, List.foldl_nil]
    omega

/-- A text is smaller than the term it is. -/
theorem length_lt_sizeOf (s : Bytes) : s.length < sizeOf s := by
  induction s with
  | nil => exact Nat.zero_lt_one
  | cons b s ih =>
    rw [List.length_cons, List.cons.sizeOf_spec]
    omega

theorem length_name_lt_sizeOf (file : IsoFile) : file.name.length < sizeOf file := by
  cases file with
  | directory name records children =>
    have hname := length_lt_sizeOf name
    rw [IsoFile.directory.sizeOf_spec, IsoFile.name]
    omega
  | symlink name target =>
    have hname := length_lt_sizeOf name
    rw [IsoFile.symlink.sizeOf_spec, IsoFile.name]
    omega
  | regular name content =>
    have hname := length_lt_sizeOf name
    rw [IsoFile.regular.sizeOf_spec, IsoFile.name]
    omega

/-- A file and its name are in the directory. -/
theorem child_eq_some (h : root.child part = some file) : file.name = part ∧ root.name.length + sizeOf file < sizeOf root := by
  cases root with
  | directory name records children =>
    have hfind : children.find? (fun entry => entry.name = part) = some file := h
    have hsize := List.sizeOf_lt_of_mem (List.mem_of_find?_eq_some hfind)
    have hname := length_lt_sizeOf name
    have hfound := List.find?_some hfind
    refine ⟨of_decide_eq_true hfound, ?_⟩
    rw [IsoFile.directory.sizeOf_spec, IsoFile.name]
    omega
  | symlink name target => cases h
  | regular name content => cases h

/-- The components that are followed, and the file they lead to, are in the image. -/
theorem follow_eq_some (h : root.follow parts = some file) :
    root.name.length + textLength parts < sizeOf root ∧ sizeOf file ≤ sizeOf root := by
  induction parts generalizing root with
  | nil =>
    obtain rfl := Option.some.inj h
    exact ⟨length_name_lt_sizeOf root, Nat.le_refl _⟩
  | cons part parts ih =>
    rw [IsoFile.follow, List.foldlM_cons] at h
    obtain ⟨entry, hentry, hrest⟩ := Option.bind_eq_some_iff.1 h
    obtain ⟨rfl, hsize⟩ := child_eq_some hentry
    have hfile := ih hrest
    rw [textLength_cons]
    omega

/-- The directory of the copy of a file, and the file, are bounded by the image. -/
theorem findFileByPath_eq_some (h : findFileByPath root path = some file) :
    (dir (join (bytes "/") path)).length ≤ sizeOf root ∧ sizeOf file ≤ sizeOf root := by
  rw [findFileByPath] at h
  by_cases hroot : path = bytes "/" ∨ path = []
  · rw [if_pos hroot] at h
    obtain rfl := Option.some.inj h
    have hpos := length_name_lt_sizeOf root
    refine ⟨?_, Nat.le_refl _⟩
    rcases hroot with rfl | rfl
    · exact Nat.lt_of_le_of_lt (Nat.zero_le _) hpos
    · exact Nat.lt_of_le_of_lt (Nat.zero_le _) hpos
  · rw [if_neg hroot] at h
    have hparts : (splitPath path).filter (· ≠ []) = splitPath path := by
      refine List.filter_eq_self.2 fun part hpart => decide_eq_true ?_
      have hmem : part ∈ (names path).map reencode := by
        rcases splitPath_cases path with hsplit | ⟨last, hsplit⟩
        · exact hsplit ▸ hpart
        · exact hsplit ▸ List.mem_append_left _ hpart
      obtain ⟨name, hname, rfl⟩ := List.mem_map.1 hmem
      exact fun hnil => (mem_names hname).2 (reencode_eq_nil_iff.1 hnil)
    rw [hparts] at h
    obtain ⟨hlen, hsize⟩ := follow_eq_some h
    have hdir := length_dir_join_le path
    exact ⟨by omega, hsize⟩

/-! ## Dependencies -/

/-- The dependencies of a file are those of its copy. -/
theorem getDependencies_eq (world : World) (filePath : Bytes) (copy : LocalFile) :
    getDependencies world filePath copy = dependenciesIn world (dir filePath) copy := by
  cases copy with
  | symlink target => rfl
  | regular content => rfl

instance finiteUInt8 : Finite UInt8 := Finite.of_injective UInt8.toFin fun _ _ => UInt8.toFin_inj.1

/-- The copies of files no larger than a bound. -/
theorem finite_localFile (targetDir : Bytes) (n : Nat) : {copy | ∃ file, sizeOf file ≤ n ∧ localFile targetDir file = some copy}.Finite := by
  have hlinks := (List.finite_length_le UInt8 n).image fun target =>
    LocalFile.symlink (if isRooted target then join targetDir target else target)
  have hfiles := (List.finite_length_le UInt8 n).image LocalFile.regular
  refine (hlinks.union hfiles).subset ?_
  rintro copy ⟨file, hsize, hcopy⟩
  cases file with
  | directory name records children =>
    obtain rfl := Option.some.inj hcopy
    have hlen := length_lt_sizeOf records
    rw [IsoFile.directory.sizeOf_spec] at hsize
    have hle : records.length ≤ n := by omega
    exact .inr ⟨records, hle, rfl⟩
  | symlink name target =>
    rw [localFile] at hcopy
    split at hcopy
    · cases hcopy
    · obtain rfl := Option.some.inj hcopy
      have hlen := length_lt_sizeOf target
      rw [IsoFile.symlink.sizeOf_spec] at hsize
      have hle : target.length ≤ n := by omega
      exact .inl ⟨target, hle, rfl⟩
  | regular name content =>
    obtain rfl := Option.some.inj hcopy
    have hlen := length_lt_sizeOf content
    rw [IsoFile.regular.sizeOf_spec] at hsize
    have hle : content.length ≤ n := by omega
    exact .inr ⟨content, hle, rfl⟩

/-- There are only finitely many paths that a file of the image can depend on. -/
theorem finite_dependsOn (world : World) (root : IsoFile) : {q | ∃ path, DependsOn world (bytes "/") root path q}.Finite := by
  have hall := ((List.finite_length_le UInt8 (sizeOf root)).prod (finite_localFile (bytes "/") (sizeOf root))).biUnion
    fun p _ => ((dependenciesIn world p.1 p.2).flatMap candidates).finite_toSet
  refine hall.subset ?_
  rintro q ⟨path, ⟨dep, ⟨file, hfile, copy, hcopy, hdep⟩, hq⟩, -⟩
  obtain ⟨hdir, hsize⟩ := findFileByPath_eq_some hfile
  exact Set.mem_biUnion (x := (dir (join (bytes "/") path), copy)) ⟨hdir, file, hsize, hcopy⟩ (List.mem_flatMap.2 ⟨dep, hdep, hq⟩)

end Bootstrap

end Anylinuxfs
