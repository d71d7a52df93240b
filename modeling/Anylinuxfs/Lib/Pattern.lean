import Mathlib.Data.List.Infix

/-!
# Texts without a pattern

A text is free of a pattern if the pattern does not occur in it. The lemmas say how this goes through the ways texts are put
together and taken apart: concatenation at a character that the pattern does not have, splitting and joining, and escaping
character by character.
-/

namespace Pattern

variable {α : Type} {pat a b s t : List α}

/-- The pattern does not occur in the text. -/
def Free (pat text : List α) : Prop := ¬ pat <:+: text

theorem Free.of_part (h : Free pat s) (ht : t <:+: s) : Free pat t := fun hp => h (hp.trans ht)

theorem Free.nil (hp : pat ≠ []) : Free pat [] := fun h => hp (List.infix_nil.1 h)

/-- Two texts that meet at a character which the pattern does not have. -/
theorem Free.append (ha : Free pat a) (hb : Free pat b) (h : (∀ c ∈ a.getLast?, c ∉ pat) ∨ ∀ c ∈ b.head?, c ∉ pat) :
    Free pat (a ++ b) := by
  intro hp
  rcases List.infix_append_iff_ne_nil.1 hp with hp | hp | ⟨l₁, l₂, h₁, h₂, rfl, hs, hpre⟩
  · exact ha hp
  · exact hb hp
  · rcases h with h | h
    · obtain ⟨t, rfl⟩ := hs
      have hlast : (t ++ l₁).getLast? = some (l₁.getLast h₁) := by
        rw [List.getLast?_append_of_ne_nil _ h₁, List.getLast?_eq_some_getLast h₁]
      exact h _ hlast (List.mem_append_left _ (List.getLast_mem h₁))
    · obtain ⟨t, rfl⟩ := hpre
      have hhead : (l₂ ++ t).head? = some (l₂.head h₂) := by
        rw [List.head?_append_of_ne_nil _ h₂, List.head?_eq_some_head h₂]
      exact h _ hhead (List.mem_append_right _ (List.head_mem h₂))

/-- A character that the pattern does not have, and a text. -/
theorem Free.cons {c : α} (hp : pat ≠ []) (hc : c ∉ pat) (h : Free pat t) : Free pat (c :: t) := by
  intro hin
  rcases List.infix_cons_iff.1 hin with hpre | hin
  · obtain ⟨rest, hrest⟩ := hpre
    cases pat with
    | nil => exact hp rfl
    | cons d pat =>
      obtain ⟨rfl, -⟩ := List.cons.inj hrest
      exact hc List.mem_cons_self
  · exact h hin

/-! ## Fixed texts

Whether a fixed text is free of a fixed pattern, and whether others can be put behind it or before it, is computed. -/

section

variable [BEq α] [LawfulBEq α]

/-- The pattern starts nowhere in the text. -/
def lacks (pat : List α) : List α → Bool
  | [] => true
  | c :: s => !pat.isPrefixOf (c :: s) && lacks pat s

/-- The text lacks the pattern and ends in a character that the pattern does not have. -/
def opens (pat text : List α) : Bool := lacks pat text && text.getLast?.all (fun c => !pat.contains c)

/-- The text lacks the pattern and starts with a character that the pattern does not have. -/
def closes (pat text : List α) : Bool := lacks pat text && text.head?.all (fun c => !pat.contains c)

theorem Free.of_lacks (hp : pat ≠ []) (h : lacks pat s = true) : Free pat s := by
  induction s with
  | nil => exact Free.nil hp
  | cons c s ih =>
    rw [lacks, Bool.and_eq_true, Bool.not_eq_true'] at h
    intro hin
    rcases List.infix_cons_iff.1 hin with hpre | hin
    · rw [List.isPrefixOf_iff_prefix.2 hpre] at h
      cases h.1
    · exact ih h.2 hin

theorem notMem_of_all {o : Option α} (h : o.all (fun c => !pat.contains c) = true) : ∀ c ∈ o, c ∉ pat := by
  intro c hc hmem
  rw [Option.mem_def.1 hc, Option.all_some, List.contains_iff_mem.2 hmem] at h
  cases h

/-- A text behind a fixed one. -/
theorem Free.after (hp : pat ≠ []) (h : Free pat t) (ha : opens pat a = true) : Free pat (a ++ t) := by
  obtain ⟨hlacks, hlast⟩ := Bool.and_eq_true_iff.1 ha
  exact (Free.of_lacks hp hlacks).append h (.inl (notMem_of_all hlast))

/-- A text before a fixed one. -/
theorem Free.before (hp : pat ≠ []) (h : Free pat t) (hb : closes pat b = true) : Free pat (t ++ b) := by
  obtain ⟨hlacks, hhead⟩ := Bool.and_eq_true_iff.1 hb
  exact h.append (Free.of_lacks hp hlacks) (.inr (notMem_of_all hhead))

/-- Two texts with a fixed one between them. -/
theorem Free.join (hp : pat ≠ []) (hs : Free pat s) (ht : Free pat t) (hne : a ≠ []) (ha : closes pat a = true)
    (ha' : opens pat a = true) : Free pat (s ++ a ++ t) := by
  refine (hs.before hp ha).append ht (.inl ?_)
  rw [List.getLast?_append_of_ne_nil _ hne]
  exact notMem_of_all (Bool.and_eq_true_iff.1 ha').2

end

/-! ## Joining and splitting -/

theorem infix_intercalate {sep : List α} {l : List (List α)} (h : t ∈ l) : t <:+: sep.intercalate l := by
  induction l with
  | nil => cases h
  | cons x l ih =>
    cases l with
    | nil =>
      rw [List.mem_singleton.1 h]
      simp [List.intercalate]
    | cons y l =>
      have heq : sep.intercalate (x :: y :: l) = x ++ sep ++ sep.intercalate (y :: l) := by simp [List.intercalate]
      rw [heq]
      rcases List.mem_cons.1 h with rfl | h
      · rw [List.append_assoc]
        exact (List.prefix_append _ _).isInfix
      · exact (ih h).trans (List.suffix_append _ _).isInfix

/-- No piece of a split text holds the separator. -/
theorem notMem_of_mem_splitOn [BEq α] [LawfulBEq α] {c : α} (h : t ∈ s.splitOn c) : c ∉ t := by
  induction s generalizing t with
  | nil =>
    rw [List.splitOn_nil, List.mem_singleton] at h
    simp [h]
  | cons x s ih =>
    rw [List.splitOn_cons_eq_if_modifyHead] at h
    split at h
    · rcases List.mem_cons.1 h with rfl | h
      · exact List.not_mem_nil
      · exact ih h
    · next hne =>
      obtain ⟨piece, rest, hsplit⟩ := List.exists_cons_of_ne_nil (List.splitOn_ne_nil c s)
      rw [hsplit, List.modifyHead_cons] at h
      rcases List.mem_cons.1 h with rfl | h
      · have hpiece : c ∉ piece := ih (hsplit ▸ List.mem_cons_self)
        have hx : c ≠ x := fun heq => hne (by simp [heq])
        simp [hx, hpiece]
      · exact ih (hsplit ▸ List.mem_cons_of_mem piece h)

/-- A piece of a text that is split occurs in it. -/
theorem infix_of_mem_splitOn [BEq α] [LawfulBEq α] {c : α} (h : t ∈ s.splitOn c) : t <:+: s := by
  have hjoin := @infix_intercalate α t [c] (s.splitOn c) h
  rwa [List.intercalate_splitOn] at hjoin

/-- Texts that are joined by a fixed one. -/
theorem Free.intercalate [BEq α] [LawfulBEq α] {sep : List α} {l : List (List α)} (hp : pat ≠ []) (hne : sep ≠ [])
    (hcloses : closes pat sep = true) (hopens : opens pat sep = true) (hl : ∀ t ∈ l, Free pat t) :
    Free pat (sep.intercalate l) := by
  induction l with
  | nil => exact Free.nil hp
  | cons x l ih =>
    have hx := hl x List.mem_cons_self
    cases l with
    | nil => simpa [List.intercalate] using hx
    | cons y l =>
      have heq : sep.intercalate (x :: y :: l) = x ++ sep ++ sep.intercalate (y :: l) := by simp [List.intercalate]
      rw [heq]
      exact Free.join hp hx (ih fun t ht => hl t (List.mem_cons_of_mem _ ht)) hne hcloses hopens

/-! ## Escaping -/

/-- Each character is kept, or becomes a sequence that starts with `esc` and has no character `first` in it. -/
def Escapes (esc first : α) (f : α → List α) : Prop := ∀ c, f c = [c] ∨ ∃ rest, f c = esc :: rest ∧ first ∉ rest

theorem prefix_of_prefix_flatMap {esc first : α} {f : α → List α} (hf : Escapes esc first f) (hesc : esc ∉ pat)
    (h : pat <+: s.flatMap f) : pat <+: s := by
  induction s generalizing pat with
  | nil => exact h
  | cons c s ih =>
    cases pat with
    | nil => exact List.nil_prefix
    | cons d pat =>
      rw [List.flatMap_cons] at h
      rcases hf c with hc | ⟨rest, hc, -⟩
      · rw [hc, List.singleton_append] at h
        obtain ⟨rfl, hrest⟩ := List.cons_prefix_cons.1 h
        exact List.cons_prefix_cons.2 ⟨rfl, ih (fun hmem => hesc (List.mem_cons_of_mem _ hmem)) hrest⟩
      · rw [hc] at h
        obtain ⟨rfl, -⟩ := List.cons_prefix_cons.1 h
        exact absurd List.mem_cons_self hesc

/-- What does not start in a text that lacks the first character of the pattern. -/
theorem infix_of_infix_append {first : α} (hfirst : first ∉ a) (h : (first :: pat) <:+: a ++ b) : (first :: pat) <:+: b := by
  induction a with
  | nil => exact h
  | cons c a ih =>
    rw [List.mem_cons, not_or] at hfirst
    rcases List.infix_cons_iff.1 h with hpre | h
    · exact absurd (List.cons_prefix_cons.1 hpre).1 hfirst.1
    · exact ih hfirst.2 h

/-- Escaping makes no new occurrence of a pattern without the character `esc`. -/
theorem Free.flatMap {esc first : α} {f : α → List α} (hf : Escapes esc first f) (hesc : esc ∉ first :: pat)
    (h : Free (first :: pat) s) : Free (first :: pat) (s.flatMap f) := by
  induction s with
  | nil => exact h
  | cons c s ih =>
    have hs : Free (first :: pat) s := h.of_part (List.suffix_cons c s).isInfix
    intro hin
    rcases hf c with hc | ⟨rest, hc, hrest⟩
    · rw [List.flatMap_cons, hc, List.singleton_append] at hin
      rcases List.infix_cons_iff.1 hin with hpre | hin
      · have hwhole : (first :: pat) <+: (c :: s).flatMap f := by
          rw [List.flatMap_cons, hc]
          exact hpre
        exact h (prefix_of_prefix_flatMap hf hesc hwhole).isInfix
      · exact ih hs hin
    · rw [List.flatMap_cons, hc] at hin
      refine ih hs (infix_of_infix_append (a := esc :: rest) ?_ hin)
      rw [List.mem_cons, not_or]
      exact ⟨fun heq => hesc (heq ▸ List.mem_cons_self), hrest⟩

end Pattern
