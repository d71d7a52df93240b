import Mathlib.Data.List.Basic

/-!
# Fields on lines

A text of several lines, each of them fields with a separator between any two. A reader that splits the whole text at the
separators, as if it were one line, finds the last field of a line and the first one of the next in one piece (`glueLine`).
`mem_pieces_iff` says when it finds a field that can only be the first one of a line.
-/

namespace FieldLines

variable {α : Type} {sep eol : α}

/-- Joined pieces hold what the pieces and the separator hold, and nothing else. -/
theorem mem_intercalate {sep : List α} {c : α} {pieces : List (List α)} (h : c ∈ sep.intercalate pieces) :
    c ∈ sep ∨ ∃ p ∈ pieces, c ∈ p := by
  induction pieces with
  | nil => simp at h
  | cons p rest ih =>
    cases rest with
    | nil => exact .inr ⟨p, List.mem_cons_self, by simpa using h⟩
    | cons p' rest =>
      rw [List.intercalate_cons_cons, List.mem_append, List.mem_append] at h
      rcases h with (h | h) | h
      · exact .inr ⟨p, List.mem_cons_self, h⟩
      · exact .inl h
      · refine (ih h).imp_right ?_
        rintro ⟨q, hq, hc⟩
        exact ⟨q, List.mem_cons_of_mem p hq, hc⟩

/-- Pieces that are joined in two parts. -/
theorem intercalate_append {sep : List α} {ps qs : List (List α)} (hps : ps ≠ []) (hqs : qs ≠ []) :
    sep.intercalate (ps ++ qs) = sep.intercalate ps ++ (sep ++ sep.intercalate qs) := by
  induction ps with
  | nil => exact absurd rfl hps
  | cons p ps ih =>
    cases ps with
    | nil =>
      rw [List.singleton_append, List.intercalate_cons_of_ne_nil hqs, List.intercalate_singleton, List.append_assoc]
    | cons p' ps =>
      rw [List.cons_append, List.cons_append, List.intercalate_cons_cons, List.intercalate_cons_cons, ← List.cons_append,
        ih (List.cons_ne_nil _ _), List.append_assoc, List.append_assoc, List.append_assoc]

/-- Joined pieces begin as the first one does. -/
theorem head?_intercalate {sep p : List α} {rest : List (List α)} (hp : p ≠ []) :
    (sep.intercalate (p :: rest)).head? = p.head? := by
  cases rest with
  | nil => rw [List.intercalate_singleton]
  | cons p' rest => rw [List.intercalate_cons_cons, List.append_assoc, List.head?_append_of_ne_nil p hp]

/-- Joined pieces end as the last one does. -/
theorem getLast?_intercalate {sep : List α} {pieces : List (List α)} {c : α} (hpieces : ∀ p ∈ pieces, p ≠ [])
    (h : c ∈ (sep.intercalate pieces).getLast?) : ∃ p ∈ pieces, c ∈ p.getLast? := by
  induction pieces with
  | nil => cases h
  | cons p rest ih =>
    cases rest with
    | nil =>
      rw [List.intercalate_singleton] at h
      exact ⟨p, List.mem_cons_self, h⟩
    | cons p' rest =>
      have hrest : ∀ q ∈ p' :: rest, q ≠ [] := fun q hq => hpieces q (List.mem_cons_of_mem p hq)
      have hne : sep.intercalate (p' :: rest) ≠ [] := by
        intro hnil
        have hhead : (sep.intercalate (p' :: rest)).head? = p'.head? := head?_intercalate (hrest p' List.mem_cons_self)
        rw [hnil, List.head?_nil, eq_comm, List.head?_eq_none_iff] at hhead
        exact hrest p' List.mem_cons_self hhead
      rw [List.intercalate_cons_cons, List.getLast?_append_of_ne_nil _ hne] at h
      obtain ⟨q, hq, hc⟩ := ih hrest h
      exact ⟨q, List.mem_cons_of_mem p hq, hc⟩

/-- The pieces of a text are what stands between two separators, or before the first one or behind the last one. -/
theorem mem_splitOn_iff [BEq α] [LawfulBEq α] {x s : List α} : x ∈ s.splitOn sep ↔
    sep ∉ x ∧ ∃ a b, s = a ++ (x ++ b) ∧ (a = [] ∨ a.getLast? = some sep) ∧ (b = [] ∨ b.head? = some sep) := by
  classical
  have hback : sep ∉ x → ∀ b, (b = [] ∨ b.head? = some sep) → ∃ l, (x ++ b).splitOn sep = x :: l := by
    rintro hx b (rfl | hb)
    · exact ⟨[], by rw [List.append_nil, List.splitOn_eq_singleton hx]⟩
    · obtain ⟨b', rfl⟩ := List.head?_eq_some_iff.1 hb
      exact ⟨_, List.splitOn_append_cons_self_of_not_mem hx b'⟩
  constructor
  · intro hmem
    induction hn : s.length using Nat.strongRecOn generalizing s with
    | ind n ih =>
    by_cases hsep : sep ∈ s
    · obtain ⟨p, rest, rfl, hp⟩ := List.eq_append_cons_of_mem hsep
      rw [List.splitOn_append_cons_self_of_not_mem hp, List.mem_cons] at hmem
      rcases hmem with rfl | hmem
      · exact ⟨hp, [], sep :: rest, rfl, .inl rfl, .inr rfl⟩
      · obtain ⟨hx, a, b, rfl, ha, hb⟩ := ih rest.length (by simp at hn; omega) hmem rfl
        refine ⟨hx, p ++ sep :: a, b, by simp, .inr ?_, hb⟩
        rw [List.getLast?_append_of_ne_nil _ (List.cons_ne_nil _ _)]
        rcases ha with rfl | ha
        · rfl
        · rw [List.getLast?_cons, ha]
          rfl
    · rw [List.splitOn_eq_singleton hsep, List.mem_singleton] at hmem
      subst hmem
      exact ⟨hsep, [], [], by simp, .inl rfl, .inl rfl⟩
  · rintro ⟨hx, a, b, rfl, ha, hb⟩
    obtain ⟨l, hl⟩ := hback hx b hb
    rcases ha with rfl | ha
    · rw [List.nil_append, hl]
      exact List.mem_cons_self
    · obtain ⟨a', rfl⟩ := List.getLast?_eq_some_iff.1 ha
      rw [List.append_assoc, List.singleton_append, List.splitOn_append_cons_self, hl]
      simp
/-- The fields of a line before the pieces of the lines after it: its last field and the first piece become one. -/
def glueLine (eol : α) : List (List α) → List (List α) → List (List α)
  | [], pieces => pieces
  | [field], pieces => (field ++ eol :: pieces.headD []) :: pieces.tail
  | field :: fields, pieces => field :: glueLine eol fields pieces

/-- The pieces of a text that is read as one line. -/
def pieces (eol : α) : List (List (List α)) → List (List α)
  | [] => []
  | [line] => line
  | line :: lines => glueLine eol line (pieces eol lines)

/-- The text. -/
def joined (sep eol : α) (lines : List (List (List α))) : List α := [eol].intercalate (lines.map [sep].intercalate)

/-- Lines that each end in a line break. -/
theorem flatten_lines {lines : List (List (List α))} (h : lines ≠ []) :
    (lines.map fun line => [sep].intercalate line ++ [eol]).flatten = joined sep eol lines ++ [eol] := by
  unfold joined
  induction lines with
  | nil => exact absurd rfl h
  | cons line lines ih =>
    cases lines with
    | nil => simp
    | cons line' lines =>
      rw [List.map_cons, List.flatten_cons, ih (List.cons_ne_nil _ _), List.map_cons, List.map_cons, List.map_cons,
        List.intercalate_cons_cons]
      simp only [List.append_assoc]

theorem glueLine_ne_nil {line ps : List (List α)} (h : line ≠ []) : glueLine eol line ps ≠ [] := by
  cases line with
  | nil => exact absurd rfl h
  | cons field fields =>
    cases fields with
    | nil => exact List.cons_ne_nil _ _
    | cons field' fields => exact List.cons_ne_nil _ _

theorem pieces_ne_nil {line : List (List α)} {lines : List (List (List α))} (h : ∀ l ∈ line :: lines, l ≠ []) :
    pieces eol (line :: lines) ≠ [] := by
  cases lines with
  | nil => exact h line List.mem_cons_self
  | cons line' lines => exact glueLine_ne_nil (h line List.mem_cons_self)

theorem intercalate_glueLine {line ps : List (List α)} (hline : line ≠ []) (hps : ps ≠ []) :
    [sep].intercalate (glueLine eol line ps) = [sep].intercalate line ++ eol :: [sep].intercalate ps := by
  induction line with
  | nil => exact absurd rfl hline
  | cons field fields ih =>
    cases fields with
    | nil =>
      obtain ⟨p, ps, rfl⟩ := List.exists_cons_of_ne_nil hps
      cases ps with
      | nil => simp [glueLine]
      | cons p' ps => simp [glueLine, List.intercalate_cons_cons]
    | cons field' fields =>
      have hne : glueLine eol (field' :: fields) ps ≠ [] := glueLine_ne_nil (List.cons_ne_nil _ _)
      rw [glueLine, List.intercalate_cons_of_ne_nil hne, ih (List.cons_ne_nil _ _), List.intercalate_cons_cons]
      · simp only [List.append_assoc]
      · nofun

/-- The pieces make the text. -/
theorem intercalate_pieces {lines : List (List (List α))} (h : ∀ l ∈ lines, l ≠ []) :
    [sep].intercalate (pieces eol lines) = joined sep eol lines := by
  unfold joined
  induction lines with
  | nil => rfl
  | cons line lines ih =>
    cases lines with
    | nil => simp [pieces]
    | cons line' lines =>
      have hrest : ∀ l ∈ line' :: lines, l ≠ [] := fun l hl => h l (List.mem_cons_of_mem line hl)
      rw [pieces, intercalate_glueLine (h line List.mem_cons_self) (pieces_ne_nil hrest), ih hrest, List.map_cons, List.map_cons,
        List.map_cons, List.intercalate_cons_cons]
      · simp
      · nofun

theorem notMem_of_mem_glueLine {line ps : List (List α)} (hne : sep ≠ eol) (hline : ∀ f ∈ line, sep ∉ f)
    (hps : ∀ p ∈ ps, sep ∉ p) : ∀ p ∈ glueLine eol line ps, sep ∉ p := by
  induction line with
  | nil => exact hps
  | cons field fields ih =>
    have hfield := hline field List.mem_cons_self
    cases fields with
    | nil =>
      intro p hp
      rcases List.mem_cons.1 hp with rfl | hp
      · rw [List.mem_append, List.mem_cons, not_or, not_or]
        refine ⟨hfield, hne, ?_⟩
        cases ps with
        | nil => exact List.not_mem_nil
        | cons p' ps => exact hps p' List.mem_cons_self
      · exact hps p (List.mem_of_mem_tail hp)
    | cons field' fields =>
      intro p hp
      rcases List.mem_cons.1 hp with rfl | hp
      · exact hfield
      · exact ih (fun f hf => hline f (List.mem_cons_of_mem field hf)) p hp

theorem notMem_of_mem_pieces {lines : List (List (List α))} (hne : sep ≠ eol) (h : ∀ l ∈ lines, ∀ f ∈ l, sep ∉ f) :
    ∀ p ∈ pieces eol lines, sep ∉ p := by
  induction lines with
  | nil => nofun
  | cons line lines ih =>
    have hline := h line List.mem_cons_self
    cases lines with
    | nil => exact hline
    | cons line' lines => exact notMem_of_mem_glueLine hne hline (ih fun l hl => h l (List.mem_cons_of_mem line hl))

/-- Splitting the text at the separators gives the pieces. -/
theorem splitOn_joined [BEq α] [LawfulBEq α] {line : List (List α)} {lines : List (List (List α))} (hne : sep ≠ eol)
    (h : ∀ l ∈ line :: lines, l ≠ [] ∧ ∀ f ∈ l, sep ∉ f) :
    (joined sep eol (line :: lines)).splitOn sep = pieces eol (line :: lines) := by
  have hlines : ∀ l ∈ line :: lines, l ≠ [] := fun l hl => (h l hl).1
  rw [← intercalate_pieces hlines]
  exact List.splitOn_intercalate sep (notMem_of_mem_pieces hne fun l hl => (h l hl).2) (pieces_ne_nil hlines)

/-! ## A field that is the first of its line -/

section

variable {x : List α} {line ps : List (List α)}

/-- A text without a line break that is a piece is a field of the line, or a piece behind the first one after it. -/
theorem mem_glueLine (hx : eol ∉ x) (hline : line ≠ []) (hmem : x ∈ glueLine eol line ps) : x ∈ line ∨ x ∈ ps.tail := by
  induction line with
  | nil => exact absurd rfl hline
  | cons field fields ih =>
    cases fields with
    | nil =>
      rcases List.mem_cons.1 hmem with rfl | hmem
      · exact absurd (List.mem_append_right field List.mem_cons_self) hx
      · exact .inr hmem
    | cons field' fields =>
      rcases List.mem_cons.1 hmem with rfl | hmem
      · exact .inl List.mem_cons_self
      · exact (ih (List.cons_ne_nil _ _) hmem).imp_left (List.mem_cons_of_mem field)

theorem notMem_tail_glueLine (hx : eol ∉ x) (hline : x ∉ line.tail) (hps : x ∉ ps.tail) : x ∉ (glueLine eol line ps).tail := by
  cases line with
  | nil => exact hps
  | cons field fields =>
    cases fields with
    | nil => exact hps
    | cons field' fields =>
      intro hmem
      rcases mem_glueLine hx (List.cons_ne_nil _ _) hmem with hmem | hmem
      · exact hline hmem
      · exact hps hmem

/-- A text that is no field behind the first one of its line is no piece behind the first one. -/
theorem notMem_tail_pieces {lines : List (List (List α))} (hx : eol ∉ x) (h : ∀ l ∈ lines, x ∉ l.tail) :
    x ∉ (pieces eol lines).tail := by
  induction lines with
  | nil => exact List.not_mem_nil
  | cons line lines ih =>
    have hline := h line List.mem_cons_self
    cases lines with
    | nil => exact hline
    | cons line' lines => exact notMem_tail_glueLine hx hline (ih fun l hl => h l (List.mem_cons_of_mem line hl))

/-- Such a text is found exactly when it is the first field of the first line, and a separator or nothing follows it. -/
theorem mem_pieces_iff {lines : List (List (List α))} (hx : eol ∉ x) (h : ∀ l ∈ line :: lines, l ≠ [] ∧ x ∉ l.tail) :
    x ∈ pieces eol (line :: lines) ↔ line.head? = some x ∧ (lines = [] ∨ 2 ≤ line.length) := by
  have htail := notMem_tail_pieces hx fun l hl => (h l hl).2
  obtain ⟨field, fields, rfl⟩ := List.exists_cons_of_ne_nil (h line List.mem_cons_self).1
  have hhead : x ∈ pieces eol ((field :: fields) :: lines) ↔ (pieces eol ((field :: fields) :: lines)).head? = some x := by
    have hne : pieces eol ((field :: fields) :: lines) ≠ [] := pieces_ne_nil fun l hl => (h l hl).1
    obtain ⟨p, ps, hps⟩ := List.exists_cons_of_ne_nil hne
    rw [hps, List.tail_cons] at htail
    rw [hps, List.mem_cons, or_iff_left htail, List.head?_cons, Option.some_inj, eq_comm]
  rw [hhead]
  cases lines with
  | nil => exact (and_iff_left (.inl rfl)).symm
  | cons line' lines =>
    cases fields with
    | nil =>
      refine iff_of_false ?_ ?_
      · intro heq
        obtain rfl := Option.some.inj heq
        exact hx (List.mem_append_right field List.mem_cons_self)
      · rintro ⟨-, hnil | hlen⟩
        · cases hnil
        · simp at hlen
    | cons field' fields => exact (and_iff_left (.inr (by simp))).symm

end

end FieldLines
