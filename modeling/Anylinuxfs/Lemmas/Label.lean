import Mathlib.Data.List.TakeWhile
import Anylinuxfs.SharePath

/-!
# Lemmas about labels and their tags

What a name for a path looks like, that the tag of a label is read back, and which lines of the console are taken for one.
-/

namespace Anylinuxfs

open Pattern (Free)

/-! ## Names -/

/-- What becomes of one character of a label. -/
def safeChar (c : Char) : Char :=
  let c := if c = '/' then '-' else c
  if c = ' ' ∨ c = ':' then '_' else c

theorem safeChar_cases (c : Char) : safeChar c = '-' ∨ safeChar c = '_' ∨ (safeChar c = c ∧ c ≠ '/' ∧ c ≠ ' ' ∧ c ≠ ':') := by
  unfold safeChar
  by_cases hslash : c = '/'
  · simp [hslash]
  · by_cases hother : c = ' ' ∨ c = ':'
    · simp [hslash, hother]
    · simp [hslash, not_or.1 hother]

theorem pathSafeLabelName_eq (name : List Char) :
    pathSafeLabelName name =
      match (name.map safeChar).dropWhile (· = '-') with
      | [] => none
      | rest => some rest := by
  unfold pathSafeLabelName
  rw [List.map_map]
  rfl

/-- What a name that is safe in a path looks like. -/
structure SafeName (label : List Char) : Prop where
  nonempty : label ≠ []
  start : label.head? ≠ some '-'
  chars : ∀ c ∈ label, c ≠ '/' ∧ c ≠ ' ' ∧ c ≠ ':'

/-- The name that a label gives is safe, and its characters are those of the label but for the replacements. -/
theorem pathSafeLabelName_spec {name label : List Char} (h : pathSafeLabelName name = some label) :
    SafeName label ∧ ∀ c ∈ label, c = '-' ∨ c = '_' ∨ c ∈ name := by
  rw [pathSafeLabelName_eq] at h
  have hhead := List.head?_dropWhile_not (· = '-') (name.map safeChar)
  have hmem : ∀ c ∈ (name.map safeChar).dropWhile (· = '-'), ∃ d ∈ name, safeChar d = c := fun c hc =>
    List.mem_map.1 ((List.dropWhile_suffix _).subset hc)
  generalize (name.map safeChar).dropWhile (· = '-') = rest at h hhead hmem
  cases rest with
  | nil => cases h
  | cons d rest =>
    cases h
    refine ⟨⟨List.cons_ne_nil _ _, ?_, fun c hc => ?_⟩, fun c hc => ?_⟩
    · intro heq
      rw [List.head?_cons, Option.some.injEq] at heq
      simp [heq] at hhead
    · obtain ⟨e, -, rfl⟩ := hmem c hc
      rcases safeChar_cases e with he | he | ⟨he, hne⟩
      · rw [he]
        decide
      · rw [he]
        decide
      · rw [he]
        exact hne
    · obtain ⟨e, hname, rfl⟩ := hmem c hc
      rcases safeChar_cases e with he | he | ⟨he, -⟩
      · exact .inl he
      · exact .inr (.inl he)
      · rw [he]
        exact .inr (.inr hname)

/-- A safe name stays as it is. -/
theorem SafeName.pathSafeLabelName_eq {label : List Char} (h : SafeName label) : pathSafeLabelName label = some label := by
  have hmap : label.map safeChar = label := by
    refine (List.map_congr_left fun c hc => ?_).trans (List.map_id label)
    obtain ⟨hslash, hspace, hcolon⟩ := h.chars c hc
    simp [safeChar, hslash, hspace, hcolon]
  rw [Anylinuxfs.pathSafeLabelName_eq, hmap]
  cases label with
  | nil => exact absurd rfl h.nonempty
  | cons c label =>
    have hc : c ≠ '-' := fun heq => h.start (by rw [heq]; rfl)
    simp [hc]

namespace PtyReader

/-- A text that starts with a tag is the tagged part of its line. -/
theorem tagged_of_prefix {line : List Char} (h : tagOpener <+: line) : tagged line = line := by
  cases line with
  | nil => exact absurd (List.prefix_nil.1 h) (by decide)
  | cons c line => simp [tagged, findFrom, List.isPrefixOf_iff_prefix.2 h]

/-- A tag with a value, as it is printed, is read back, unless the value starts with a blank. -/
theorem parse_tagLine {tag v eol : List Char} (hopener : tagOpener <+: tag) (hcolon : ':' ∉ tag)
    (hv : ∀ c ∈ v.head?, isWhitespace c = false) (heol : ∀ c ∈ eol, isWhitespace c = true) :
    tag <+: tagged (tag ++ ':' :: (v ++ ['>'] ++ eol)) ∧
      parseVmTagValue (tagged (tag ++ ':' :: (v ++ ['>'] ++ eol))) = some v := by
  have htrim : trim (v ++ ['>'] ++ eol) = v ++ ['>'] := by
    refine trim_append (by simp) ?_ ?_ heol
    · cases v with
      | nil =>
        intro c hc
        rw [List.nil_append, List.head?_cons, Option.mem_some_iff] at hc
        rw [← hc]
        decide
      | cons d v => exact hv
    · intro c hc
      rw [List.getLast?_concat, Option.mem_some_iff] at hc
      rw [← hc]
      decide
  have hsplit : splitOnce ':' (tag ++ ':' :: (v ++ ['>'] ++ eol)) = some (tag, v ++ ['>'] ++ eol) := by
    have hpos : ∀ c ∈ tag, decide (c ≠ ':') = true := fun c hc => decide_eq_true fun heq => hcolon (heq ▸ hc)
    simp only [splitOnce, List.mem_append, List.mem_cons, true_or, or_true, if_true]
    rw [List.takeWhile_append_of_pos hpos, List.dropWhile_append_of_pos hpos]
    simp
  have hwhole := tagged_of_prefix (hopener.trans (List.prefix_append tag (':' :: (v ++ ['>'] ++ eol))))
  rw [hwhole]
  refine ⟨List.prefix_append _ _, ?_⟩
  rw [parseVmTagValue, hsplit, Option.map_some]
  simp only [htrim]
  simp

/-- A tag that is no beginning of another one and has none is not read in its place. -/
theorem isPrefixOf_eq_false {tag other line : List Char} (h : tag <+: line) (hother : ¬ other <+: tag) (htag : ¬ tag <+: other) :
    other.isPrefixOf line = false := by
  rw [Bool.eq_false_iff, Ne, List.isPrefixOf_iff_prefix]
  intro ho
  exact (List.prefix_or_prefix_of_prefix ho h).elim hother htag

end PtyReader

/-! ## Lines without the tag -/

theorem labelTag_ne_nil : PtyReader.labelTag ≠ [] := by decide

theorem Untagged.append {a b : List Char} (ha : Untagged a) (hb : Untagged b)
    (h : (∀ c ∈ a.getLast?, c ∉ PtyReader.labelTag) ∨ ∀ c ∈ b.head?, c ∉ PtyReader.labelTag) : Untagged (a ++ b) :=
  Free.append ha hb h

theorem Untagged.of_lacks {s : List Char} (h : Pattern.lacks PtyReader.labelTag s = true) : Untagged s :=
  Free.of_lacks labelTag_ne_nil h

theorem Untagged.after {a s : List Char} (h : Untagged s) (ha : Pattern.opens PtyReader.labelTag a = true) : Untagged (a ++ s) :=
  Free.after labelTag_ne_nil h ha

theorem Untagged.before {s b : List Char} (h : Untagged s) (hb : Pattern.closes PtyReader.labelTag b = true) : Untagged (s ++ b) :=
  Free.before labelTag_ne_nil h hb

theorem Untagged.join {a s t : List Char} (hs : Untagged s) (ht : Untagged t) (hne : a ≠ [])
    (ha : Pattern.closes PtyReader.labelTag a = true) (ha' : Pattern.opens PtyReader.labelTag a = true) : Untagged (s ++ a ++ t) :=
  Free.join labelTag_ne_nil hs ht hne ha ha'

/-- No part of the line is read as the tag of a label, however the console ends its lines. -/
def Unheard (line : List Char) : Prop :=
  ∀ piece ∈ line.splitOn '\n', ∀ eol : List Char, (∀ c ∈ eol, isWhitespace c = true) → PtyReader.readsAsLabel (piece ++ eol) = false

end Anylinuxfs
