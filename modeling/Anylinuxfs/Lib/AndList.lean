import Anylinuxfs.Lib.Pattern

/-!
# Commands joined by `&&`

How a POSIX shell reads a script of words that mean themselves, with blanks between them, and of operators `&&` that stand alone:
`andList` gives the commands, of which each is run if those before it have succeeded.
-/

namespace Shell

/-- The operator. -/
def andOperator : List Char := ['&', '&']

/-- The words of a script, and its operators. -/
def tokens (script : List Char) : List (List Char) := (script.splitOn ' ').filter (· ≠ [])

/-- The commands of a script. -/
def andList (script : List Char) : List (List (List Char)) :=
  if tokens script = [] then [] else (tokens script).splitOn andOperator

/-- A script of commands. -/
def joinAnd (commands : List (List Char)) : List Char := " && ".toList.intercalate commands

theorem tokens_append_blank (a b : List Char) : tokens (a ++ ' ' :: b) = tokens a ++ tokens b := by
  simp [tokens, List.splitOn_append_cons_self]

/-- A word is one token. -/
theorem tokens_of_word {s : List Char} (hne : s ≠ []) (hblank : ' ' ∉ s) : tokens s = [s] := by
  simp [tokens, List.splitOn_eq_singleton hblank, hne]

theorem blank_notMem_of_mem_tokens {t script : List Char} (h : t ∈ tokens script) : ' ' ∉ t :=
  Pattern.notMem_of_mem_splitOn (List.mem_filter.1 h).1

/-- Every token is made of characters of the script. -/
theorem subset_of_mem_tokens {t script : List Char} (h : t ∈ tokens script) : t ⊆ script :=
  (Pattern.infix_of_mem_splitOn (List.mem_filter.1 h).1).subset

theorem tokens_joinAnd {c : List Char} {cs : List (List Char)} :
    tokens (joinAnd (c :: cs)) = [andOperator].intercalate ((c :: cs).map tokens) := by
  induction cs generalizing c with
  | nil => simp [joinAnd]
  | cons c' cs ih =>
    have hjoin : joinAnd (c :: c' :: cs) = c ++ ' ' :: (andOperator ++ ' ' :: joinAnd (c' :: cs)) := by
      simp [joinAnd, andOperator, List.intercalate_cons_cons]
    have hoperator : tokens andOperator = [andOperator] := rfl
    rw [hjoin, tokens_append_blank, tokens_append_blank, ih, hoperator, List.map_cons, List.map_cons, List.map_cons,
      List.intercalate_cons_cons]
    simp

/-- The commands of a script that is joined of commands without the operator. -/
theorem andList_joinAnd {commands : List (List Char)} (h : ∀ c ∈ commands, tokens c ≠ [] ∧ andOperator ∉ tokens c) :
    andList (joinAnd commands) = commands.map tokens := by
  cases commands with
  | nil => rfl
  | cons c cs =>
    have hne : [andOperator].intercalate ((c :: cs).map tokens) ≠ [] := by
      intro hnil
      have hhead := (h c List.mem_cons_self).1
      cases cs with
      | nil => simp [hhead] at hnil
      | cons c' cs => simp [List.intercalate_cons_cons] at hnil
    rw [andList, tokens_joinAnd, if_neg hne, List.splitOn_intercalate]
    · intro l hl
      obtain ⟨c, hc, rfl⟩ := List.mem_map.1 hl
      exact (h c hc).2
    · simp

end Shell
