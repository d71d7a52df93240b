import Anylinuxfs.Lib.Exports
import Anylinuxfs.Lib.Pattern
import Mathlib.Data.List.TakeWhile

/-!
# Exports files of FreeBSD

`exports(5)` of FreeBSD: a line is a list of fields between blanks, first the paths and then the options, a backslash at the end of
a line continues it, and a line that starts with `#` is a comment.
-/

namespace Exports

/-! ## The grammar -/

/-- `/`. -/
def slash : UInt8 := 0x2f

/-- The fields of a line. -/
def fields (line : List UInt8) : List (List UInt8) := (line.splitOnP isBlank).filter (· ≠ [])

/-- What a line exports. -/
structure BsdEntry where
  paths : List (List UInt8)
  options : List (List UInt8)
  deriving DecidableEq, Repr

/-- A field is a path if it is absolute. -/
def isPath (field : List UInt8) : Bool := field.head? = some slash

/-- A line, unless it is blank or a comment. -/
def parseBsdLine (line : List UInt8) : Option BsdEntry :=
  if line.head? = some hash ∨ fields line = [] then none
  else some ⟨(fields line).takeWhile isPath, (fields line).dropWhile isPath⟩

/-- An exports file of FreeBSD. -/
def freeBsd (text : List UInt8) : List BsdEntry := ((joinLines text).splitOn newline).filterMap parseBsdLine

/-! ## Fields -/

/-- The pieces of a line have all of its bytes but the blanks. -/
theorem flatten_splitOnP {p : UInt8 → Bool} (s : List UInt8) : (s.splitOnP p).flatten = s.filter (fun b => !p b) := by
  induction s with
  | nil => rfl
  | cons b s ih =>
    rw [List.splitOnP_cons_eq_if_modifyHead]
    by_cases hb : p b = true
    · simp [hb, ih]
    · obtain ⟨piece, rest, hsplit⟩ := List.exists_cons_of_ne_nil (List.splitOnP_ne_nil p s)
      rw [hsplit, List.flatten_cons] at ih
      simp [hb, hsplit, ih]

/-- What the fields of a line have in them. -/
theorem mem_fields_iff {line : List UInt8} {b : UInt8} : (∃ field ∈ fields line, b ∈ field) ↔ b ∈ line ∧ isBlank b = false := by
  have hflat : b ∈ (line.splitOnP isBlank).flatten ↔ b ∈ line ∧ isBlank b = false := by
    rw [flatten_splitOnP, List.mem_filter, Bool.not_eq_true']
  rw [← hflat, List.mem_flatten]
  refine exists_congr fun field => and_congr_left fun hb => ?_
  rw [fields, List.mem_filter, and_iff_left (decide_eq_true (List.ne_nil_of_mem hb))]

/-- A field in front of the others. -/
theorem fields_append {field : List UInt8} (hne : field ≠ []) (h : ∀ b ∈ field, isBlank b = false) {blank : UInt8}
    (hblank : isBlank blank = true) (rest : List UInt8) : fields (field ++ blank :: rest) = field :: fields rest := by
  rw [fields, List.splitOnP_append_cons_of_forall_mem h blank hblank, List.filter_cons_of_pos (by simpa using hne), fields]

/-! ## What is written -/

/-- A line with a path and fields behind it. -/
def renderBsd (tail : List UInt8) (e : List UInt8 × List UInt8) : List UInt8 := e.1 ++ 0x20 :: (e.2 ++ tail ++ [newline])

/-- What a line is written for. -/
def entryOfBsd (tail : List UInt8) (e : List UInt8 × List UInt8) : BsdEntry := ⟨[e.1], fields (e.2 ++ tail)⟩

/-- A path that is a field. -/
structure BsdPath (path : List UInt8) : Prop where
  absolute : path.head? = some slash
  unbroken : ∀ b ∈ path, isBlank b = false ∧ b ≠ newline

/-- Options that are the rest of a line. -/
structure BsdOptions (tail options : List UInt8) : Prop where
  unbroken : newline ∉ options
  relative : ∀ field ∈ (fields (options ++ tail)).head?, isPath field = false

/-- The end of a line. -/
structure BsdTail (tail : List UInt8) : Prop where
  nonempty : tail ≠ []
  unbroken : newline ∉ tail
  closed : tail.getLast? ≠ some backslash

/-- A line that does not go on. -/
theorem joinLines_line {line : List UInt8} (hline : newline ∉ line) (hlast : line.getLast? ≠ some backslash) (text : List UInt8) :
    joinLines (line ++ newline :: text) = line ++ newline :: joinLines text := by
  induction line with
  | nil => exact joinLines_cons (by decide) text
  | cons b line ih =>
    rw [List.mem_cons, not_or] at hline
    cases line with
    | nil =>
      have hb : b ≠ backslash := fun heq => hlast (congrArg some heq)
      exact (joinLines_cons hb _).trans (congrArg (b :: ·) (joinLines_cons (by decide) text))
    | cons c line =>
      have hc : ¬ (b = backslash ∧ c = newline) := fun h => hline.2 (h.2 ▸ List.mem_cons_self)
      rw [List.cons_append, List.cons_append, joinLines, if_neg hc]
      exact congrArg (b :: ·) (ih hline.2 hlast)

/-- The entries of a file, line by line. -/
theorem freeBsd_line {line : List UInt8} (hline : newline ∉ line) (hlast : line.getLast? ≠ some backslash) (text : List UInt8) :
    freeBsd (line ++ newline :: text) = (parseBsdLine line).toList ++ freeBsd text := by
  rw [freeBsd, joinLines_line hline hlast, List.splitOn_append_cons_self_of_not_mem hline, List.filterMap_cons]
  cases parseBsdLine line <;> rfl

/-- What every entry of a file is like. -/
theorem freeBsd_spec {text : List UInt8} {entry : BsdEntry} (h : entry ∈ freeBsd text) :
    (∀ path ∈ entry.paths, BsdPath path) ∧ (∀ field ∈ entry.options, newline ∉ field) ∧
      ∀ field ∈ entry.options.head?, isPath field = false := by
  obtain ⟨line, hline, hentry⟩ := List.mem_filterMap.1 h
  have hnewline : newline ∉ line := Pattern.notMem_of_mem_splitOn hline
  unfold parseBsdLine at hentry
  split at hentry
  · cases hentry
  · obtain rfl := Option.some.inj hentry
    have hfield : ∀ field ∈ fields line, ∀ b ∈ field, isBlank b = false ∧ b ≠ newline := fun field hf b hb => by
      obtain ⟨hmem, hblank⟩ := mem_fields_iff.1 ⟨field, hf, hb⟩
      exact ⟨hblank, fun heq => hnewline (heq ▸ hmem)⟩
    refine ⟨fun path hpath => ⟨?_, hfield path ((List.takeWhile_prefix _).subset hpath)⟩, fun field hf hmem => ?_, fun field hf => ?_⟩
    · have habsolute : isPath path = true := List.mem_takeWhile_imp hpath
      exact of_decide_eq_true habsolute
    · exact (hfield field ((List.dropWhile_suffix _).subset hf) newline hmem).2 rfl
    · have hhead := List.head?_dropWhile_not isPath (fields line)
      dsimp only at hf
      rw [Option.mem_def.1 hf] at hhead
      simpa using hhead

section Read

variable {tail : List UInt8}

/-- A line that stands as it is meant is read back. -/
theorem parseBsdLine_of_plain {path options : List UInt8} (hpath : BsdPath path) (hoptions : BsdOptions tail options) :
    parseBsdLine (path ++ 0x20 :: (options ++ tail)) = some (entryOfBsd tail (path, options)) := by
  have hne : path ≠ [] := by
    rintro rfl
    exact absurd hpath.absolute (by decide)
  have hhash : (path ++ 0x20 :: (options ++ tail)).head? ≠ some hash := by
    rw [List.head?_append_of_ne_nil _ hne, hpath.absolute]
    decide
  have hisPath : isPath path = true := decide_eq_true hpath.absolute
  have hfields : fields (path ++ 0x20 :: (options ++ tail)) = path :: fields (options ++ tail) :=
    fields_append hne (fun b hb => (hpath.unbroken b hb).1) (by decide) _
  have hstart : (fields (options ++ tail)).takeWhile isPath = [] ∧
      (fields (options ++ tail)).dropWhile isPath = fields (options ++ tail) := by
    have hhead := hoptions.relative
    cases hsplit : fields (options ++ tail) with
    | nil => exact ⟨rfl, rfl⟩
    | cons field rest =>
      have hfield : isPath field = false := hhead field (by rw [hsplit]; rfl)
      exact ⟨List.takeWhile_cons_of_neg (by simp [hfield]), List.dropWhile_cons_of_neg (by simp [hfield])⟩
  rw [parseBsdLine, hfields, if_neg (not_or.2 ⟨hhash, List.cons_ne_nil _ _⟩), List.takeWhile_cons_of_pos hisPath,
    List.dropWhile_cons_of_pos hisPath, hstart.1, hstart.2, entryOfBsd]

/-- What stands as it is meant is read back. -/
theorem freeBsd_flatMap {l : List (List UInt8 × List UInt8)} (htail : BsdTail tail)
    (h : ∀ e ∈ l, BsdPath e.1 ∧ BsdOptions tail e.2) : freeBsd (l.flatMap (renderBsd tail)) = l.map (entryOfBsd tail) := by
  induction l with
  | nil => rfl
  | cons e l ih =>
    obtain ⟨path, options⟩ := e
    obtain ⟨hpath, hoptions⟩ := h _ List.mem_cons_self
    have hline : newline ∉ path ++ 0x20 :: (options ++ tail) := by
      simp only [List.mem_append, List.mem_cons, not_or]
      exact ⟨fun hmem => (hpath.unbroken _ hmem).2 rfl, by decide, hoptions.unbroken, htail.unbroken⟩
    have hlast : (path ++ 0x20 :: (options ++ tail)).getLast? ≠ some backslash := by
      rw [List.append_cons, ← List.append_assoc, List.getLast?_append_of_ne_nil _ htail.nonempty]
      exact htail.closed
    have hrender : ((path, options) :: l).flatMap (renderBsd tail) =
        (path ++ 0x20 :: (options ++ tail)) ++ newline :: l.flatMap (renderBsd tail) := by
      simp [renderBsd]
    rw [hrender, freeBsd_line hline hlast, parseBsdLine_of_plain hpath hoptions, ih fun e he => h e (List.mem_cons_of_mem _ he)]
    rfl

/-- What is read back, in whatever order, stands as it is meant. -/
theorem freeBsd_flatMap_iff (htail : BsdTail tail) (l : List (List UInt8 × List UInt8)) :
    (freeBsd (l.flatMap (renderBsd tail))).Perm (l.map (entryOfBsd tail)) ↔ ∀ e ∈ l, BsdPath e.1 ∧ BsdOptions tail e.2 := by
  refine ⟨fun hperm e he => ?_, fun h => freeBsd_flatMap htail h ▸ .refl _⟩
  have hentry : entryOfBsd tail e ∈ freeBsd (l.flatMap (renderBsd tail)) := hperm.mem_iff.2 (List.mem_map_of_mem he)
  obtain ⟨hpaths, hfields, hhead⟩ := freeBsd_spec hentry
  refine ⟨hpaths e.1 List.mem_cons_self, fun hmem => ?_, hhead⟩
  obtain ⟨field, hfield, hb⟩ := mem_fields_iff.2 ⟨List.mem_append_left tail hmem, by decide⟩
  exact hfields field hfield hb

end Read

end Exports
