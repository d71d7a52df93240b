import Anylinuxfs.Lib.Correspond
import Anylinuxfs.Lib.Exports
import Mathlib.Algebra.GroupWithZero.Nat
import Mathlib.Algebra.Order.BigOperators.Group.List
import Mathlib.Algebra.Order.Group.Nat
import Mathlib.Data.List.TakeWhile

/-!
# Exports files of Linux

`exports(5)` of Linux: a line is a path and a list of clients, `host(options)`, between white space. A quoted part of a word may
have white space in it, a backslash and three octal digits stand for a byte, a backslash at the end of a line continues it, and a
word that starts with `#` starts a comment.

Reading a file loses quotes, escapes and continued lines, and `marks` counts the bytes they are made of.
-/

namespace Exports

/-! ## Bytes -/

/-- `"`. -/
def quote : UInt8 := 0x22

/-- `(`. -/
def opening : UInt8 := 0x28

/-- `)`. -/
def closing : UInt8 := 0x29

/-- White space within a line. -/
def isSpace (b : UInt8) : Bool := isBlank b || b = 0x0b || b = 0x0c || b = 0x0d

/-- White space. -/
def isWhite (b : UInt8) : Bool := isSpace b || b = newline

/-- An octal digit. -/
def isOctal (b : UInt8) : Bool := 0x30 ≤ b && b ≤ 0x37

/-! ## The grammar -/

/-- The byte of an escape at the start of a text. -/
def escape : List UInt8 → Option UInt8
  | b :: x :: y :: z :: _ =>
    if b = backslash ∧ isOctal x = true ∧ x ≤ 0x33 ∧ isOctal y = true ∧ isOctal z = true then
      some (64 * (x - 0x30) + 8 * (y - 0x30) + (z - 0x30))
    else none
  | _ => none

/-- The escapes are decoded, after `skip` bytes of the last one. -/
def decodeFrom : Nat → List UInt8 → List UInt8
  | _, [] => []
  | skip + 1, _ :: rest => decodeFrom skip rest
  | 0, b :: rest =>
    match escape (b :: rest) with
    | some c => c :: decodeFrom 3 rest
    | none => b :: decodeFrom 0 rest

/-- A word with its escapes decoded. -/
def decode (word : List UInt8) : List UInt8 := decodeFrom 0 word

/-- There is an escape in a word. -/
def hasEscape : List UInt8 → Bool
  | [] => false
  | b :: rest => (escape (b :: rest)).isSome || hasEscape rest

/-- Where the reader of a line is. -/
inductive Mode where
  | between
  | comment
  | word (quoted : Bool)
  deriving DecidableEq, Repr

/-- One more byte at the start of the first word. -/
def addByte (b : UInt8) : List (List (List UInt8)) → List (List (List UInt8))
  | (word :: line) :: lines => ((b :: word) :: line) :: lines
  | lines => lines

/-- The first word of a line ends before the others start. -/
def endWord : List (List (List UInt8)) → List (List (List UInt8))
  | line :: lines => ([] :: line) :: lines
  | [] => [[[]]]

/-- The words of the lines. -/
def lex : Mode → List UInt8 → List (List (List UInt8))
  | .word _, [] => [[[]]]
  | _, [] => [[]]
  | .between, b :: rest =>
    if b = newline then [] :: lex .between rest
    else if isSpace b then lex .between rest
    else if b = hash then lex .comment rest
    else if b = quote then lex (.word true) rest
    else addByte b (lex (.word false) rest)
  | .comment, b :: rest => if b = newline then [] :: lex .between rest else lex .comment rest
  | .word false, b :: rest =>
    if b = newline then [[]] :: lex .between rest
    else if isSpace b then endWord (lex .between rest)
    else if b = quote then lex (.word true) rest
    else addByte b (lex (.word false) rest)
  | .word true, b :: rest => if b = quote then lex (.word false) rest else addByte b (lex (.word true) rest)

/-- A client, with its options if it has a list of them. -/
structure Client where
  host : List UInt8
  options : Option (List UInt8)
  deriving DecidableEq, Repr

/-- What is exported to whom. -/
structure Entry where
  path : List UInt8
  clients : List Client
  deriving DecidableEq, Repr

/-- A word as a client: the list of the options is closed at its end and not before. -/
def parseClient (word : List UInt8) : Option Client :=
  if opening ∈ word then
    let list := (word.dropWhile (· ≠ opening)).tail
    if list.dropWhile (· ≠ closing) = [closing] then
      some ⟨word.takeWhile (· ≠ opening), some (list.takeWhile (· ≠ closing))⟩
    else none
  else some ⟨word, none⟩

/-- The entries of the lines that have words. -/
def parseLines : List (List (List UInt8)) → Option (List Entry)
  | [] => some []
  | [] :: lines => parseLines lines
  | (path :: words) :: lines => do
    let clients ← words.mapM (fun word => parseClient (decode word))
    let entries ← parseLines lines
    pure (⟨decode path, clients⟩ :: entries)

/-- An exports file of Linux. -/
def linux (text : List UInt8) : Option (List Entry) := parseLines (lex .between (joinLines text))

/-! ## Marks

No step of the reader makes more marks.
-/

/-- The bytes of which quotes, escapes and continued lines are made. -/
def isMark (b : UInt8) : Bool := b = quote || b = backslash || isOctal b

/-- How many of them there are. -/
def marks (text : List UInt8) : Nat := text.countP isMark

@[simp] theorem marks_nil : marks [] = 0 := rfl

@[simp] theorem marks_cons (b : UInt8) (text : List UInt8) : marks (b :: text) = marks text + if isMark b then 1 else 0 :=
  List.countP_cons

@[simp] theorem marks_append (s t : List UInt8) : marks (s ++ t) = marks s + marks t := List.countP_append

theorem marks_eq_zero {text : List UInt8} : marks text = 0 ↔ ∀ b ∈ text, isMark b = false := by
  simp [marks]

/-! ### Continued lines -/

/-- Lines that are joined lose a mark. -/
theorem joinLines_eq_or_marks_lt (s : List UInt8) : joinLines s = s ∨ marks (joinLines s) < marks s := by
  induction s using joinLines.induct with
  | case1 b c rest h ih =>
    have hle : marks (joinLines rest) ≤ marks rest := ih.elim (fun heq => (congrArg marks heq).le) Nat.le_of_lt
    obtain ⟨rfl, rfl⟩ := h
    have hback : isMark backslash = true := by decide
    have hblank : isMark 0x20 = false := by decide
    refine .inr ?_
    simp only [joinLines, and_self, if_true, marks_cons, hback, hblank, Bool.false_eq_true, if_false]
    omega
  | case2 b c rest h ih =>
    rw [joinLines, if_neg h]
    rcases ih with heq | hlt
    · exact .inl (congrArg (b :: ·) heq)
    · rw [marks_cons, marks_cons b]
      exact .inr (Nat.add_lt_add_right hlt _)
  | case3 s h => exact .inl (joinLines.eq_2 s h)

theorem marks_joinLines_le (s : List UInt8) : marks (joinLines s) ≤ marks s :=
  (joinLines_eq_or_marks_lt s).elim (fun h => (congrArg marks h).le) Nat.le_of_lt

/-- Joining lines leaves the quotes. -/
theorem count_quote_joinLines (s : List UInt8) : (joinLines s).count quote = s.count quote := by
  induction s using joinLines.induct with
  | case1 b c rest h ih =>
    obtain ⟨rfl, rfl⟩ := h
    have hback : backslash ≠ quote := by decide
    have hend : newline ≠ quote := by decide
    have hblank : (0x20 : UInt8) ≠ quote := by decide
    simp [joinLines, hback, hend, hblank, ih]
  | case2 b c rest h ih => rw [joinLines, if_neg h, List.count_cons, List.count_cons, ih]
  | case3 s h => rw [joinLines.eq_2 s h]

/-! ### Escapes -/

/-- What follows an escape is decoded on its own. -/
theorem decodeFrom_eq_drop (skip : Nat) (s : List UInt8) : decodeFrom skip s = decodeFrom 0 (s.drop skip) := by
  induction s generalizing skip with
  | nil => cases skip <;> rfl
  | cons b s ih =>
    cases skip with
    | zero => rfl
    | succ skip => exact ih skip

/-- An escape is a backslash and three digits. -/
theorem escape_eq_some {b c : UInt8} {rest : List UInt8} (h : escape (b :: rest) = some c) :
    b = backslash ∧ ∃ x y z rest', rest = x :: y :: z :: rest' ∧ isOctal x = true ∧ isOctal y = true ∧ isOctal z = true := by
  unfold escape at h
  split at h
  · next heq =>
    obtain ⟨rfl, rfl⟩ := List.cons.inj heq
    split at h
    · next hesc => exact ⟨hesc.1, _, _, _, _, rfl, hesc.2.1, hesc.2.2.2⟩
    · cases h
  · cases h

theorem isMark_of_isOctal {b : UInt8} (h : isOctal b = true) : isMark b = true := by
  simp [isMark, h]

theorem marks_decodeFrom_le (skip : Nat) (s : List UInt8) : marks (decodeFrom skip s) ≤ marks s := by
  induction s generalizing skip with
  | nil => cases skip <;> exact Nat.le_refl _
  | cons b s ih =>
    cases skip with
    | succ skip => exact (ih skip).trans (by simp)
    | zero =>
      rw [decodeFrom]
      cases hesc : escape (b :: s) with
      | none => simpa using ih 0
      | some c =>
        have hback : isMark b = true := by
          rw [(escape_eq_some hesc).1]
          decide
        have hle := ih 3
        have hone : (if isMark c then 1 else 0) ≤ 1 := by split <;> simp
        simp only [marks_cons, hback, if_true]
        omega

/-- A word without escapes stays as it is; an escape loses marks. -/
theorem decode_cases (s : List UInt8) :
    (hasEscape s = false ∧ decode s = s) ∨ (hasEscape s = true ∧ marks (decode s) < marks s) := by
  unfold decode
  induction s with
  | nil => exact .inl ⟨rfl, rfl⟩
  | cons b s ih =>
    rw [hasEscape, decodeFrom]
    cases hesc : escape (b :: s) with
    | none =>
      rcases ih with ⟨hnone, heq⟩ | ⟨hsome, hlt⟩
      · exact .inl ⟨by simp [hnone], congrArg (b :: ·) heq⟩
      · exact .inr ⟨by simp [hsome], by simpa using hlt⟩
    | some c =>
      obtain ⟨rfl, x, y, z, rest, rfl, hx, hy, hz⟩ := escape_eq_some hesc
      have hle : marks (decodeFrom 3 (x :: y :: z :: rest)) ≤ marks rest := by
        rw [decodeFrom_eq_drop]
        exact marks_decodeFrom_le 0 rest
      have hone : (if isMark c then 1 else 0) ≤ 1 := by split <;> simp
      refine .inr ⟨rfl, ?_⟩
      simp only [marks_cons, isMark_of_isOctal hx, isMark_of_isOctal hy, isMark_of_isOctal hz, if_true]
      omega

theorem marks_decode_le (s : List UInt8) : marks (decode s) ≤ marks s := marks_decodeFrom_le 0 s

theorem decode_of_hasEscape {s : List UInt8} (h : hasEscape s = false) : decode s = s := by
  rcases decode_cases s with ⟨-, heq⟩ | ⟨hsome, -⟩
  · exact heq
  · rw [h] at hsome
    cases hsome

/-- No mark is lost exactly if there is no escape. -/
theorem hasEscape_of_marks {s : List UInt8} (h : marks s ≤ marks (decode s)) : hasEscape s = false := by
  rcases decode_cases s with ⟨hnone, -⟩ | ⟨-, hlt⟩
  · exact hnone
  · exact absurd h (Nat.not_le_of_lt hlt)

theorem hasEscape_cons {b : UInt8} (h : b ≠ backslash) (s : List UInt8) : hasEscape (b :: s) = hasEscape s := by
  have hnone : escape (b :: s) = none := by
    cases hesc : escape (b :: s) with
    | none => rfl
    | some c => exact absurd (escape_eq_some hesc).1 h
  rw [hasEscape, hnone, Option.isSome_none, Bool.false_or]

theorem hasEscape_of_notMem {s : List UInt8} (h : backslash ∉ s) : hasEscape s = false := by
  induction s with
  | nil => rfl
  | cons b s ih =>
    rw [List.mem_cons, not_or] at h
    rw [hasEscape_cons (Ne.symm h.1), ih h.2]

/-- No escape goes over a byte that is no digit. -/
theorem hasEscape_append {c : UInt8} (hc : isOctal c = false) (s t : List UInt8) :
    hasEscape (s ++ c :: t) = (hasEscape s || hasEscape (c :: t)) := by
  induction s with
  | nil => rfl
  | cons b s ih =>
    have hesc : escape (b :: (s ++ c :: t)) = escape (b :: s) := by
      match s with
      | [] => cases t with
        | nil => rfl
        | cons y t => cases t <;> simp [escape, hc]
      | [x] => cases t <;> simp [escape, hc]
      | [x, y] => simp [escape, hc]
      | x :: y :: z :: s => rfl
    rw [List.cons_append, hasEscape, hasEscape, hesc, ih, Bool.or_assoc]

/-! ### Words -/

/-- The marks of the words of lines. -/
def wordMarks (lines : List (List (List UInt8))) : Nat := (lines.flatten.map marks).sum

theorem wordMarks_cons (line : List (List UInt8)) (lines : List (List (List UInt8))) :
    wordMarks (line :: lines) = (line.map marks).sum + wordMarks lines := by
  simp [wordMarks]

theorem wordMarks_addByte_le (b : UInt8) (lines : List (List (List UInt8))) :
    wordMarks (addByte b lines) ≤ wordMarks lines + if isMark b then 1 else 0 := by
  unfold addByte
  split
  · simp only [wordMarks_cons, List.map_cons, List.sum_cons, marks_cons]
    omega
  · exact Nat.le_add_right _ _

theorem wordMarks_endWord (lines : List (List (List UInt8))) : wordMarks (endWord lines) = wordMarks lines := by
  unfold endWord
  split
  · simp [wordMarks_cons]
  · rfl

/-- One byte gives the words no mark but itself, and none if it is a quote. -/
theorem wordMarks_lex_cons (m : Mode) (b : UInt8) (text : List UInt8) :
    ∃ m', wordMarks (lex m (b :: text)) + [b].count quote ≤ wordMarks (lex m' text) + marks [b] := by
  have hdrop : ∀ lines, wordMarks lines + [b].count quote ≤ wordMarks lines + marks [b] := by
    intro lines
    refine Nat.add_le_add_left ?_ _
    by_cases hquote : b = quote
    · rw [hquote]
      decide
    · rw [List.count_singleton, if_neg (by simpa using hquote)]
      exact Nat.zero_le _
  have hadd : b ≠ quote → ∀ lines, wordMarks (addByte b lines) + [b].count quote ≤ wordMarks lines + marks [b] := by
    intro hquote lines
    rw [List.count_singleton, if_neg (by simpa using hquote)]
    simpa using wordMarks_addByte_le b lines
  have hline : ∀ line : List (List UInt8), line = [] ∨ line = [[]] → ∀ lines, wordMarks (line :: lines) = wordMarks lines := by
    rintro line (rfl | rfl) lines
    · simp [wordMarks_cons]
    · simp [wordMarks_cons]
  cases m with
  | between =>
    rw [lex]
    split
    · exact ⟨.between, by rw [hline [] (.inl rfl)]; exact hdrop _⟩
    split
    · exact ⟨.between, hdrop _⟩
    split
    · exact ⟨.comment, hdrop _⟩
    split
    · exact ⟨.word true, hdrop _⟩
    next hquote => exact ⟨.word false, hadd hquote _⟩
  | comment =>
    rw [lex]
    split
    · exact ⟨.between, by rw [hline [] (.inl rfl)]; exact hdrop _⟩
    · exact ⟨.comment, hdrop _⟩
  | word quoted =>
    cases quoted with
    | false =>
      rw [lex]
      split
      · exact ⟨.between, by rw [hline [[]] (.inr rfl)]; exact hdrop _⟩
      split
      · exact ⟨.between, by rw [wordMarks_endWord]; exact hdrop _⟩
      split
      · exact ⟨.word true, hdrop _⟩
      next hquote => exact ⟨.word false, hadd hquote _⟩
    | true =>
      rw [lex]
      split
      · exact ⟨.word false, hdrop _⟩
      next hquote => exact ⟨.word true, hadd hquote _⟩

/-- The words have no marks but those of the text, and not its quotes. -/
theorem wordMarks_lex (m : Mode) (text : List UInt8) : wordMarks (lex m text) + text.count quote ≤ marks text := by
  induction text generalizing m with
  | nil => cases m <;> simp [lex, wordMarks]
  | cons b text ih =>
    obtain ⟨m', hstep⟩ := wordMarks_lex_cons m b text
    have hrest := ih m'
    have hcount : ([b] ++ text).count quote = [b].count quote + text.count quote := List.count_append
    rw [List.singleton_append] at hcount
    have hmarks : marks (b :: text) = marks [b] + marks text := marks_append [b] text
    omega

/-! ### Entries -/

/-- The marks of the options of a client. -/
def Client.marks (client : Client) : Nat := client.options.elim 0 Exports.marks

/-- The marks of an entry. -/
def Entry.marks (entry : Entry) : Nat := Exports.marks entry.path + (entry.clients.map Client.marks).sum

/-- A text is what stands before the first of its bytes that are the same, that byte, and what stands behind it. -/
theorem split_at_first {b : UInt8} {s : List UInt8} (h : b ∈ s) :
    s = s.takeWhile (· ≠ b) ++ b :: (s.dropWhile (· ≠ b)).tail := by
  have hhead : ∃ rest, s.dropWhile (· ≠ b) = b :: rest := by
    induction s with
    | nil => cases h
    | cons c s ih =>
      by_cases hc : c = b
      · exact ⟨s, by simp [hc]⟩
      · obtain ⟨rest, hrest⟩ := ih ((List.mem_cons.1 h).resolve_left (Ne.symm hc))
        exact ⟨rest, by rw [List.dropWhile_cons_of_pos (by simpa using hc), hrest]⟩
  obtain ⟨rest, hrest⟩ := hhead
  rw [hrest, List.tail_cons, ← hrest, List.takeWhile_append_dropWhile]

theorem notMem_takeWhile_ne (b : UInt8) (s : List UInt8) : b ∉ s.takeWhile (· ≠ b) := fun h =>
  absurd (List.mem_takeWhile_imp h) (by simp)

/-- A client with a list of options is a host and the list, which is closed once, at its end. -/
theorem parseClient_eq_some {word options : List UInt8} {client : Client} (h : parseClient word = some client)
    (hoptions : client.options = some options) : word = client.host ++ opening :: (options ++ [closing]) ∧ closing ∉ options := by
  unfold parseClient at h
  split at h
  · next hmem =>
    dsimp only at h
    split at h
    · next hclose =>
      obtain rfl := Option.some.inj h
      obtain rfl := Option.some.inj hoptions
      refine ⟨?_, notMem_takeWhile_ne closing _⟩
      dsimp only
      rw [← hclose, List.takeWhile_append_dropWhile]
      exact split_at_first hmem
    · cases h
  · obtain rfl := Option.some.inj h
    cases hoptions

theorem marks_parseClient_le {word : List UInt8} {client : Client} (h : parseClient word = some client) :
    client.marks ≤ marks word := by
  unfold Client.marks
  cases hoptions : client.options with
  | none => exact Nat.zero_le _
  | some options =>
    rw [(parseClient_eq_some h hoptions).1, marks_append, marks_cons, marks_append, Option.elim_some]
    omega

/-- A line that has words is read on its own. -/
theorem parseLines_cons_eq_some {path : List UInt8} {words : List (List UInt8)} {lines : List (List (List UInt8))}
    {entries : List Entry} : parseLines ((path :: words) :: lines) = some entries ↔
      ∃ clients, List.Forall₂ (fun word client => parseClient (decode word) = some client) words clients ∧
        ∃ others, parseLines lines = some others ∧ ⟨decode path, clients⟩ :: others = entries := by
  simp only [parseLines, Option.bind_eq_bind, Option.bind_eq_some_iff, Correspond.mapM_eq_some_iff, Option.pure_def, Option.some.injEq]

theorem marks_clients_le {words : List (List UInt8)} {clients : List Client}
    (h : List.Forall₂ (fun word client => parseClient (decode word) = some client) words clients) :
    (clients.map Client.marks).sum ≤ (words.map fun word => marks (decode word)).sum := by
  induction h with
  | nil => exact Nat.le_refl _
  | cons hword _ ih =>
    simp only [List.map_cons, List.sum_cons]
    exact Nat.add_le_add (marks_parseClient_le hword) ih

/-- The entries have no marks but those of the decoded words. -/
theorem marks_parseLines_le {lines : List (List (List UInt8))} {entries : List Entry} (h : parseLines lines = some entries) :
    (entries.map Entry.marks).sum ≤ (lines.flatten.map fun word => marks (decode word)).sum := by
  induction lines generalizing entries with
  | nil =>
    obtain rfl := Option.some.inj h
    exact Nat.le_refl _
  | cons line lines ih =>
    cases line with
    | nil => exact ih h
    | cons path words =>
      obtain ⟨clients, hclients, others, hothers, rfl⟩ := parseLines_cons_eq_some.1 h
      have hwords := marks_clients_le hclients
      have hrest := ih hothers
      simp only [List.map_cons, List.sum_cons, List.flatten_cons, List.cons_append, List.map_append, List.sum_append, Entry.marks]
      omega

/-- No list of options that is read has a bracket that closes it in it. -/
theorem closing_notMem {lines : List (List (List UInt8))} {entries : List Entry} (h : parseLines lines = some entries)
    {entry : Entry} (hentry : entry ∈ entries) {client : Client} (hclient : client ∈ entry.clients) {options : List UInt8}
    (hoptions : client.options = some options) : closing ∉ options := by
  induction lines generalizing entries with
  | nil =>
    obtain rfl := Option.some.inj h
    cases hentry
  | cons line lines ih =>
    cases line with
    | nil => exact ih h hentry
    | cons path words =>
      obtain ⟨clients, hclients, others, hothers, rfl⟩ := parseLines_cons_eq_some.1 h
      rcases List.mem_cons.1 hentry with rfl | hentry
      · obtain ⟨word, -, hword⟩ := Correspond.exists_left hclients hclient
        exact (parseClient_eq_some hword hoptions).2
      · exact ih hothers hentry

end Exports
