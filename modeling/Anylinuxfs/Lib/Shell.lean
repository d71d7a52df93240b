import Mathlib.Data.List.Basic

/-!
# Words of a shell command

How a POSIX shell reads a script that is meant to be one simple command: `wordsFrom` splits it at blanks, marks what is quoted,
and refuses everything that makes the script something else (an operator, a parameter expansion, a command substitution, a tilde
expansion, an open quote). `words` are the words without their quotes when none of them is a pattern for path names, and `wordsIn`
when no pattern finds another path. `words_dquote_pair_iff` is the exact condition under which two texts that a program has put
between double quotes come out as two words, unchanged.
-/

namespace Shell

/-- A text as the shell reads it. -/
abbrev Bytes := List UInt8

namespace Byte

def nul : UInt8 := 0x00
def tab : UInt8 := 0x09
def newline : UInt8 := 0x0a
def space : UInt8 := 0x20
def dquote : UInt8 := 0x22
def hash : UInt8 := 0x23
def dollar : UInt8 := 0x24
def squote : UInt8 := 0x27
def backslash : UInt8 := 0x5c
def backtick : UInt8 := 0x60
def tilde : UInt8 := 0x7e

end Byte

/-- The bytes that make an expansion of a `$` before them: the first of a name, a digit, a special parameter, an opening brace or
parenthesis, and the opening bracket, which POSIX leaves open and which begins an arithmetic expansion in some shells. -/
def startsExpansion (c : UInt8) : Bool :=
  (0x41 ≤ c && c ≤ 0x5a) || (0x61 ≤ c && c ≤ 0x7a) || c == 0x5f || (0x30 ≤ c && c ≤ 0x39) ||
    [0x40, 0x2a, 0x23, 0x3f, 0x2d, 0x24, 0x21, 0x7b, 0x28, 0x5b].contains c

/-- The bytes that make an expansion of a `$` before them outside quotes: there, a quote makes another kind of quote in some shells. -/
def startsBareExpansion (c : UInt8) : Bool := startsExpansion c || [Byte.dquote, Byte.squote].contains c

/-- The bytes that a backslash between double quotes quotes: dollar, backtick, double quote, backslash, newline. -/
def escapable (c : UInt8) : Bool :=
  [Byte.dollar, Byte.backtick, Byte.dquote, Byte.backslash, Byte.newline].contains c

/-- The bytes that make a script more than one simple command outside quotes: operators, newline, backtick. -/
def active (c : UInt8) : Bool := [Byte.newline, Byte.backtick, 0x26, 0x28, 0x29, 0x3b, 0x3c, 0x3e, 0x7c].contains c

/-- The bytes that make a pattern for path names of a word outside quotes: asterisk, question mark, opening bracket. -/
def patternByte (c : UInt8) : Bool := [0x2a, 0x3f, 0x5b].contains c

/-- Where in a script the reader is. `escape back` is behind a backslash, from where it goes back to `back`. -/
inductive Mode where
  | plain | dquote | squote | comment
  | escape (back : Mode)
  deriving DecidableEq, Repr

/-- What the reader does with a byte: add it to the word, drop it, drop it as a quote (which begins a word), end the word, or
give the script up. -/
inductive Act where
  | emit (next : Mode)
  | drop (next : Mode)
  | quote (next : Mode)
  | blank
  | refuse
  deriving DecidableEq, Repr

/-- What the reader does with the byte `c`, given the byte behind it and whether it is inside a word. A script with a zero byte
cannot be handed over. -/
def act (mode : Mode) (inWord : Bool) (c : UInt8) (behind : Option UInt8) : Act :=
  if c = Byte.nul then .refuse
  else match mode with
  | .plain =>
    if c = Byte.space ∨ c = Byte.tab then .blank
    else if c = Byte.dquote then .quote .dquote
    else if c = Byte.squote then .quote .squote
    else if c = Byte.backslash then if behind.isSome then .drop (.escape .plain) else .emit .plain
    else if c = Byte.dollar then if behind.any startsBareExpansion then .refuse else .emit .plain
    else if c = Byte.hash ∧ inWord = false then .drop .comment
    else if active c ∨ (c = Byte.tilde ∧ inWord = false) then .refuse
    else .emit .plain
  | .dquote =>
    if c = Byte.dquote then .quote .plain
    else if c = Byte.backslash then if behind.any escapable then .drop (.escape .dquote) else .emit .dquote
    else if c = Byte.dollar then if behind.any startsExpansion then .refuse else .emit .dquote
    else if c = Byte.backtick then .refuse
    else .emit .dquote
  | .squote => if c = Byte.squote then .quote .plain else .emit .squote
  | .comment => if c = Byte.newline then .refuse else .drop .comment
  | .escape back => if c = Byte.newline then .drop back else .emit back

/-- A word as it is read: its bytes, each with whether it is quoted. -/
abbrev Word := List (UInt8 × Bool)

/-- A word without its quotes. -/
def text (w : Word) : Bytes := w.map Prod.fst

/-- A word that stands outside quotes as a whole. -/
def bare (s : Bytes) : Word := s.map fun c => (c, false)

/-- A word that stands between quotes as a whole. -/
def quoted (s : Bytes) : Word := s.map fun c => (c, true)

/-- The word is a pattern for path names. -/
def isPattern (w : Word) : Bool := w.any fun g => !g.2 && patternByte g.1

/-- The words of the script from here on; `word` is the word the reader is inside of, if any. -/
def wordsFrom (mode : Mode) (word : Option Word) : Bytes → Option (List Word)
  | [] => if mode = .plain ∨ mode = .comment then some word.toList else none
  | c :: rest =>
    match act mode word.isSome c rest.head? with
    | .emit next => wordsFrom next (some (word.getD [] ++ [(c, decide (mode ≠ .plain))])) rest
    | .drop next => wordsFrom next word rest
    | .quote next => wordsFrom next (some (word.getD [])) rest
    | .blank => (wordsFrom .plain none rest).map (word.toList ++ ·)
    | .refuse => none

/-- The words of a script that is one simple command, when each of them stays as it is read. -/
def wordsWith (stays : Word → Bool) (script : Bytes) : Option (List Bytes) :=
  ((wordsFrom .plain none script).filter fun ws => ws.all stays).map (List.map text)

/-- The words of a script that is one simple command without expansions. -/
def words : Bytes → Option (List Bytes) := wordsWith fun w => !isPattern w

/-- A word stays as it is: it is no pattern, or one that finds no path, or only the word itself. `glob` gives the paths that a
pattern finds. -/
def staysIn (glob : Word → List Bytes) (w : Word) : Bool := !isPattern w || decide (glob w = []) || decide (glob w = [text w])

/-- The words of a script that is one simple command without expansions but patterns that leave their words as they are. -/
def wordsIn (glob : Word → List Bytes) : Bytes → Option (List Bytes) := wordsWith (staysIn glob)

/-! ## Texts that come through unchanged -/

/-- The byte means itself between double quotes, before the byte `behind`. -/
def literalByte (c behind : UInt8) : Bool :=
  c != Byte.nul && c != Byte.dquote && c != Byte.backtick && (c != Byte.backslash || !escapable behind) &&
    (c != Byte.dollar || !startsExpansion behind)

/-- Every byte of the text means itself between double quotes, before the byte `behind`. -/
def literalBefore (behind : UInt8) : Bytes → Bool
  | [] => true
  | c :: rest => literalByte c (rest.headD behind) && literalBefore behind rest

/-- Every byte of the text means itself when it is the whole of what stands between two double quotes. -/
def Literal (s : Bytes) : Prop := literalBefore Byte.dquote s = true

instance (s : Bytes) : Decidable (Literal s) := inferInstanceAs (Decidable (_ = true))

/-- A byte that means itself between double quotes, whatever stands behind it. -/
def ordinary (c : UInt8) : Bool :=
  c != Byte.nul && c != Byte.dquote && c != Byte.backtick && c != Byte.backslash && c != Byte.dollar

/-- A byte that means itself outside quotes, also at the beginning of a word and in a shell that expands braces. -/
def inert (c : UInt8) : Bool :=
  c != Byte.nul && c != Byte.space && c != Byte.tab && c != Byte.dquote && c != Byte.squote && c != Byte.backslash &&
    c != Byte.dollar && c != Byte.hash && c != Byte.tilde && c != 0x7b && !active c && !patternByte c

theorem literalByte_of_ordinary {c : UInt8} (h : ordinary c = true) (behind : UInt8) : literalByte c behind = true := by
  simp only [ordinary, Bool.and_eq_true, bne_iff_ne] at h
  simp [literalByte, h]

theorem literalBefore_append (q : UInt8) (a b : Bytes) :
    literalBefore q (a ++ b) = (literalBefore (b.headD q) a && literalBefore q b) := by
  induction a with
  | nil => rfl
  | cons c a ih =>
    have hhead : (a ++ b).headD q = a.headD (b.headD q) := by cases a <;> rfl
    rw [List.cons_append, literalBefore, literalBefore, ih, hhead, Bool.and_assoc]

theorem literalBefore_of_ordinary {s : Bytes} (h : ∀ c ∈ s, ordinary c = true) (q : UInt8) : literalBefore q s = true := by
  induction s with
  | nil => rfl
  | cons c s ih =>
    rw [literalBefore, literalByte_of_ordinary (h c List.mem_cons_self), ih fun c' hc' => h c' (List.mem_cons_of_mem c hc')]
    rfl

/-- A text that means itself before a double quote means itself before a byte that does not quote, unless it ends in a dollar sign
and that byte makes an expansion of it. -/
theorem literalBefore_iff_of_literal {s : Bytes} (h : Literal s) {q : UInt8} (hq : startsExpansion q = true) :
    literalBefore q s = true ↔ s.getLast? ≠ some Byte.dollar := by
  rcases List.eq_nil_or_concat s with rfl | ⟨a, c, rfl⟩
  · exact ⟨fun _ => by simp, fun _ => rfl⟩
  · unfold Literal at h
    rw [List.concat_eq_append, literalBefore_append, Bool.and_eq_true] at h ⊢
    have hc : literalByte c Byte.dquote = true := by simpa [literalBefore] using h.2
    simp only [literalByte, Bool.and_eq_true, Bool.or_eq_true, bne_iff_ne, Bool.not_eq_true'] at hc
    have hb : c ≠ Byte.backslash := hc.1.2.resolve_right (by decide)
    have hlast : literalBefore q [c] = true ↔ c ≠ Byte.dollar := by
      simp [literalBefore, literalByte, hc.1.1.1.1, hc.1.1.1.2, hc.1.1.2, hb, hq]
    rw [hlast]
    simpa using fun _ => h.1

/-- A text that means itself before a double quote means itself before every byte that makes no expansion of a dollar sign. -/
theorem literalBefore_of_literal {s : Bytes} (h : Literal s) {q : UInt8} (hq : startsExpansion q = false) :
    literalBefore q s = true := by
  unfold Literal at h
  induction s with
  | nil => rfl
  | cons c s ih =>
    rw [literalBefore, Bool.and_eq_true] at h ⊢
    refine ⟨?_, ih h.2⟩
    cases s with
    | cons d s => exact h.1
    | nil =>
      have hc : literalByte c Byte.dquote = true := h.1
      simp only [literalByte, Bool.and_eq_true, Bool.or_eq_true, bne_iff_ne, Bool.not_eq_true'] at hc
      have hb : c ≠ Byte.backslash := hc.1.2.resolve_right (by decide)
      simp [literalByte, hc.1.1.1.1, hc.1.1.1.2, hc.1.1.2, hb, hq]

/-! ## Words -/

section

variable {w v : Word} {s : Bytes} {c : UInt8}

@[simp] theorem text_nil : text [] = [] := rfl

@[simp] theorem text_append (w v : Word) : text (w ++ v) = text w ++ text v := List.map_append

@[simp] theorem text_bare (s : Bytes) : text (bare s) = s := by
  simp [text, bare, Function.comp_def]

@[simp] theorem text_quoted (s : Bytes) : text (quoted s) = s := by
  simp [text, quoted, Function.comp_def]

theorem bare_append (s t : Bytes) : bare (s ++ t) = bare s ++ bare t := List.map_append

@[simp] theorem isPattern_append (w v : Word) : isPattern (w ++ v) = (isPattern w || isPattern v) := List.any_append

/-- What is quoted is no pattern. -/
@[simp] theorem isPattern_quoted (s : Bytes) : isPattern (quoted s) = false := by
  simp [isPattern, quoted]

theorem isPattern_bare (s : Bytes) : isPattern (bare s) = s.any patternByte := by
  simp [isPattern, bare, Function.comp_def]

theorem isPattern_bare_of_inert (h : ∀ c ∈ s, inert c = true) : isPattern (bare s) = false := by
  rw [isPattern_bare, List.any_eq_false]
  intro c hc hp
  have hinert := h c hc
  simp [inert, hp] at hinert

end

/-! ## What the reader can do -/

section

variable {mode next : Mode} {word : Option Word} {w w₀ : Word} {c q : UInt8} {rest s : Bytes} {ws : List Word} {inWord : Bool}
  {behind : Option UInt8} {stays : Word → Bool}

/-- The reader only ever adds the byte it reads to a word, so no byte appears in the words more often than in the script. -/
theorem count_wordsFrom_le (h : wordsFrom mode word s = some ws) :
    (ws.flatMap text).count q ≤ (text (word.getD [])).count q + s.count q := by
  induction s generalizing mode word ws with
  | nil =>
    simp only [wordsFrom] at h
    split at h
    · cases h
      cases word <;> simp
    · cases h
  | cons c rest ih =>
    have hle : rest.count q ≤ (c :: rest).count q := List.count_le_count_cons
    simp only [wordsFrom] at h
    split at h
    · have := ih h
      rw [Option.getD_some, text_append, List.count_append] at this
      have hone : (text [(c, decide (mode ≠ .plain))]).count q = if (c == q) = true then 1 else 0 := List.count_singleton
      rw [hone] at this
      rw [List.count_cons]
      omega
    · exact Nat.le_trans (ih h) (Nat.add_le_add_left hle _)
    · have := ih h
      rw [Option.getD_some] at this
      omega
    · rw [Option.map_eq_some_iff] at h
      obtain ⟨ws', h', rfl⟩ := h
      have := ih h'
      rw [List.flatMap_append, List.count_append]
      cases word <;> simp at this ⊢ <;> omega
    · cases h

/-- What the reader can do outside quotes. -/
theorem act_plain_cases (inWord : Bool) (c : UInt8) (behind : Option UInt8) :
    act .plain inWord c behind = .blank ∨
    (c = Byte.dquote ∧ act .plain inWord c behind = .quote .dquote) ∨
    (c = Byte.squote ∧ act .plain inWord c behind = .quote .squote) ∨
    (c = Byte.backslash ∧ act .plain inWord c behind = .drop (.escape .plain)) ∨
    (c = Byte.hash ∧ act .plain inWord c behind = .drop .comment) ∨
    (c ≠ Byte.dquote ∧ act .plain inWord c behind = .emit .plain) ∨
    act .plain inWord c behind = .refuse := by
  simp only [act]
  by_cases hn : c = Byte.nul
  · simp [hn]
  rw [if_neg hn]
  by_cases hblank : c = Byte.space ∨ c = Byte.tab
  · exact .inl (if_pos hblank)
  rw [if_neg hblank]
  by_cases hd : c = Byte.dquote
  · exact .inr (.inl ⟨hd, if_pos hd⟩)
  rw [if_neg hd]
  by_cases hs : c = Byte.squote
  · exact .inr (.inr (.inl ⟨hs, if_pos hs⟩))
  rw [if_neg hs]
  by_cases hb : c = Byte.backslash
  · rw [if_pos hb]
    cases behind with
    | none => exact .inr (.inr (.inr (.inr (.inr (.inl ⟨hd, rfl⟩)))))
    | some b => exact .inr (.inr (.inr (.inl ⟨hb, rfl⟩)))
  rw [if_neg hb]
  by_cases hdollar : c = Byte.dollar
  · rw [if_pos hdollar]
    split
    · simp
    · simp [hd]
  rw [if_neg hdollar]
  by_cases hhash : c = Byte.hash ∧ inWord = false
  · exact .inr (.inr (.inr (.inr (.inl ⟨hhash.1, if_pos hhash⟩))))
  rw [if_neg hhash]
  split
  · simp
  · simp [hd]

/-- What the reader can do between double quotes: the bytes that it adds to the word are those that mean themselves. -/
theorem act_dquote_cases (inWord : Bool) (c : UInt8) (behind : Option UInt8) :
    (c = Byte.dquote ∧ act .dquote inWord c behind = .quote .plain) ∨
    (c = Byte.backslash ∧ act .dquote inWord c behind = .drop (.escape .dquote)) ∨
    ((c ≠ Byte.dquote ∧ ∀ b ∈ behind, literalByte c b = true) ∧ act .dquote inWord c behind = .emit .dquote) ∨
    act .dquote inWord c behind = .refuse := by
  simp only [act]
  by_cases hn : c = Byte.nul
  · exact Or.inr (Or.inr (Or.inr (if_pos hn)))
  rw [if_neg hn]
  by_cases hq : c = Byte.dquote
  · exact Or.inl ⟨hq, if_pos hq⟩
  rw [if_neg hq]
  by_cases hb : c = Byte.backslash
  · rw [if_pos hb]
    by_cases he : behind.any escapable = true
    · exact Or.inr (Or.inl ⟨hb, if_pos he⟩)
    · refine Or.inr (Or.inr (Or.inl ⟨⟨hq, ?_⟩, if_neg he⟩))
      rintro b rfl
      rw [Option.any_some, Bool.not_eq_true] at he
      subst hb
      rw [literalByte, he]
      rfl
  rw [if_neg hb]
  by_cases hd : c = Byte.dollar
  · rw [if_pos hd]
    by_cases he : behind.any startsExpansion = true
    · exact Or.inr (Or.inr (Or.inr (if_pos he)))
    · refine Or.inr (Or.inr (Or.inl ⟨⟨hq, ?_⟩, if_neg he⟩))
      rintro b rfl
      rw [Option.any_some, Bool.not_eq_true] at he
      subst hd
      rw [literalByte, he]
      rfl
  rw [if_neg hd]
  by_cases ht : c = Byte.backtick
  · exact Or.inr (Or.inr (Or.inr (if_pos ht)))
  · refine Or.inr (Or.inr (Or.inl ⟨⟨hq, fun b _ => ?_⟩, if_neg ht⟩))
    simp [literalByte, hn, hq, hb, hd, ht]

/-- A byte that means itself is added to the word. -/
theorem act_of_literalByte {b : UInt8} (h : literalByte c b = true) (inWord : Bool) :
    act .dquote inWord c (some b) = .emit .dquote := by
  simp only [literalByte, Bool.and_eq_true, Bool.or_eq_true, bne_iff_ne, Bool.not_eq_true'] at h
  obtain ⟨⟨⟨⟨h0, h1⟩, h2⟩, h3⟩, h4⟩ := h
  simp only [act, h0, h1, h2, if_false, Option.any_some]
  by_cases hb : c = Byte.backslash
  · have he : ¬escapable b = true := by simpa [hb] using h3
    rw [if_pos hb, if_neg he]
  · rw [if_neg hb]
    by_cases hd : c = Byte.dollar
    · have he : ¬startsExpansion b = true := by simpa [hd] using h4
      rw [if_pos hd, if_neg he]
    · rw [if_neg hd]

theorem act_of_inert (h : inert c = true) (inWord : Bool) (behind : Option UInt8) :
    act .plain inWord c behind = .emit .plain := by
  simp only [inert, Bool.and_eq_true, bne_iff_ne, Bool.not_eq_true'] at h
  unfold act
  simp [h]

/-! ## One byte -/

theorem wordsFrom_emit (h : act mode word.isSome c rest.head? = .emit next) :
    wordsFrom mode word (c :: rest) = wordsFrom next (some (word.getD [] ++ [(c, decide (mode ≠ .plain))])) rest := by
  simp only [wordsFrom, h]

theorem wordsFrom_drop (h : act mode word.isSome c rest.head? = .drop next) :
    wordsFrom mode word (c :: rest) = wordsFrom next word rest := by
  simp only [wordsFrom, h]

theorem wordsFrom_quote (h : act mode word.isSome c rest.head? = .quote next) :
    wordsFrom mode word (c :: rest) = wordsFrom next (some (word.getD [])) rest := by
  simp only [wordsFrom, h]

theorem wordsFrom_blank (h : act mode word.isSome c rest.head? = .blank) :
    wordsFrom mode word (c :: rest) = (wordsFrom .plain none rest).map (word.toList ++ ·) := by
  simp only [wordsFrom, h]

theorem wordsFrom_refuse (h : act mode word.isSome c rest.head? = .refuse) : wordsFrom mode word (c :: rest) = none := by
  simp only [wordsFrom, h]

/-- The words with the texts `ts`, all of which stay as they are. -/
theorem wordsWith_eq_some_iff {ts : List Bytes} :
    wordsWith stays s = some ts ↔ ∃ ws, wordsFrom .plain none s = some ws ∧ (∀ w ∈ ws, stays w = true) ∧ ws.map text = ts := by
  simp [wordsWith, Option.filter_eq_some_iff, and_assoc]

/-- A word at the beginning of a script. -/
theorem wordsWith_cons {w : Word} (h : wordsFrom .plain none s = (wordsFrom .plain none rest).map (w :: ·)) (hw : stays w = true) :
    wordsWith stays s = (wordsWith stays rest).map (text w :: ·) := by
  unfold wordsWith
  rw [h]
  cases wordsFrom .plain none rest with
  | none => rfl
  | some ws =>
    rw [Option.map_some, Option.filter_some, Option.filter_some, List.all_cons, hw, Bool.true_and]
    split <;> rfl

/-- A word that is no pattern, at the beginning of a script. -/
theorem words_cons {w : Word} (h : wordsFrom .plain none s = (wordsFrom .plain none rest).map (w :: ·)) (hw : isPattern w = false) :
    words s = (words rest).map (text w :: ·) :=
  wordsWith_cons h (by rw [hw]; rfl)

/-! ## Nothing is lost -/

/-- No occurrence of the byte is lost between the script and the words. -/
def Kept (q : UInt8) (word : Option Word) (s : Bytes) (ws : List Word) : Prop :=
  (ws.flatMap text).count q = (text (word.getD [])).count q + s.count q

theorem Kept.emit {quoted : Bool} (hk : Kept q word (c :: rest) ws) : Kept q (some (word.getD [] ++ [(c, quoted)])) rest ws := by
  unfold Kept at hk ⊢
  have hone : (text [(c, quoted)]).count q = if (c == q) = true then 1 else 0 := List.count_singleton
  rw [Option.getD_some, text_append, List.count_append, hone]
  rw [List.count_cons] at hk
  omega

/-- A byte that was dropped is another than the one that is kept. -/
theorem Kept.dropped {w : Option Word} (hk : Kept q word (c :: rest) ws) (hw : w.getD [] = word.getD [])
    (h : wordsFrom mode w rest = some ws) : c ≠ q ∧ Kept q w rest ws := by
  have hle := count_wordsFrom_le (q := q) h
  unfold Kept at hk ⊢
  rw [← hw, List.count_cons] at hk
  by_cases hc : c = q
  · rw [if_pos (by simp [hc])] at hk
    omega
  · rw [if_neg (by simp [hc])] at hk
    exact ⟨hc, hk⟩

theorem Kept.quoted (hk : Kept q word (c :: rest) ws) (h : wordsFrom mode (some (word.getD [])) rest = some ws) :
    c ≠ q ∧ Kept q (some (word.getD [])) rest ws :=
  hk.dropped (w := some (word.getD [])) rfl h

theorem Kept.blank (hk : Kept q word (c :: rest) (word.toList ++ ws)) (h : wordsFrom .plain none rest = some ws) :
    Kept q none rest ws := by
  have hle := count_wordsFrom_le (q := q) h
  have hword : (word.toList.flatMap text).count q = (text (word.getD [])).count q := by cases word <;> simp
  unfold Kept at hk ⊢
  rw [List.flatMap_append, List.count_append, hword, List.count_cons] at hk
  simp only [Option.getD_none, text_nil, List.count_nil] at hle ⊢
  omega

/-- The reader makes a double quote part of a word only at the price of a backslash or of single quotes: a script that loses
none of these loses every double quote. -/
theorem count_dquote_of_kept (hmode : mode = .plain ∨ mode = .dquote ∨ mode = .comment)
    (h : wordsFrom mode word s = some ws) (hb : Kept Byte.backslash word s ws) (hs : Kept Byte.squote word s ws) :
    (ws.flatMap text).count Byte.dquote = (text (word.getD [])).count Byte.dquote := by
  induction s generalizing mode word ws with
  | nil =>
    simp only [wordsFrom] at h
    split at h
    · cases h
      cases word <;> simp
    · cases h
  | cons c rest ih =>
    have hemit : c ≠ Byte.dquote → ∀ {m : Mode} {quoted : Bool}, (m = .plain ∨ m = .dquote ∨ m = .comment) →
        wordsFrom m (some (word.getD [] ++ [(c, quoted)])) rest = some ws →
        (ws.flatMap text).count Byte.dquote = (text (word.getD [])).count Byte.dquote := by
      intro hc m quoted hm hr
      have hone : (text [(c, quoted)]).count Byte.dquote = 0 := by simp [text, hc]
      rw [ih hm hr hb.emit hs.emit, Option.getD_some, text_append, List.count_append, hone, Nat.add_zero]
    rcases hmode with rfl | rfl | rfl
    · rcases act_plain_cases word.isSome c rest.head? with ha | ⟨hc, ha⟩ | ⟨hc, ha⟩ | ⟨hc, ha⟩ | ⟨hc, ha⟩ | ⟨hc, ha⟩ | ha
      · rw [wordsFrom_blank ha, Option.map_eq_some_iff] at h
        obtain ⟨ws', h', rfl⟩ := h
        have hih := ih (Or.inl rfl) h' (hb.blank h') (hs.blank h')
        rw [List.flatMap_append, List.count_append, hih]
        cases word <;> simp
      · rw [wordsFrom_quote ha] at h
        have hih := ih (Or.inr (Or.inl rfl)) h (hb.quoted h).2 (hs.quoted h).2
        exact hih
      · rw [wordsFrom_quote ha] at h
        exact absurd hc (hs.quoted h).1
      · rw [wordsFrom_drop ha] at h
        exact absurd hc (hb.dropped rfl h).1
      · rw [wordsFrom_drop ha] at h
        exact ih (Or.inr (Or.inr rfl)) h (hb.dropped rfl h).2 (hs.dropped rfl h).2
      · rw [wordsFrom_emit ha] at h
        exact hemit hc (Or.inl rfl) h
      · rw [wordsFrom_refuse ha] at h
        cases h
    · rcases act_dquote_cases word.isSome c rest.head? with ⟨hc, ha⟩ | ⟨hc, ha⟩ | ⟨⟨hc, -⟩, ha⟩ | ha
      · rw [wordsFrom_quote ha] at h
        have hih := ih (Or.inl rfl) h (hb.quoted h).2 (hs.quoted h).2
        exact hih
      · rw [wordsFrom_drop ha] at h
        exact absurd hc (hb.dropped rfl h).1
      · rw [wordsFrom_emit ha] at h
        exact hemit hc (Or.inr (Or.inl rfl)) h
      · rw [wordsFrom_refuse ha] at h
        cases h
    · by_cases hc : c = Byte.nul ∨ c = Byte.newline
      · have ha : act .comment word.isSome c rest.head? = .refuse := by
          rcases hc with rfl | rfl <;> rfl
        rw [wordsFrom_refuse ha] at h
        cases h
      · rw [not_or] at hc
        have ha : act .comment word.isSome c rest.head? = .drop .comment := (if_neg hc.1).trans (if_neg hc.2)
        rw [wordsFrom_drop ha] at h
        exact ih (Or.inr (Or.inr rfl)) h (hb.dropped rfl h).2 (hs.dropped rfl h).2

/-! ## Between double quotes -/

/-- A text that means itself between double quotes becomes part of the word. -/
theorem wordsFrom_literal (w : Word) (hl : Literal s) :
    wordsFrom .dquote (some w) (s ++ Byte.dquote :: rest) = wordsFrom .plain (some (w ++ quoted s)) rest := by
  unfold Literal at hl
  induction s generalizing w with
  | nil =>
    have ha : act .dquote (some w).isSome Byte.dquote rest.head? = .quote .plain := rfl
    have hnil : w ++ quoted [] = w := List.append_nil w
    rw [List.nil_append, wordsFrom_quote ha, hnil]
    rfl
  | cons c s ih =>
    simp only [literalBefore, Bool.and_eq_true] at hl
    have hhead : (s ++ Byte.dquote :: rest).head? = some (s.headD Byte.dquote) := by cases s <;> rfl
    have ha : act .dquote (some w).isSome c (s ++ Byte.dquote :: rest).head? = .emit .dquote := by
      rw [hhead]
      exact act_of_literalByte hl.1 _
    rw [List.cons_append, wordsFrom_emit ha, ih _ hl.2, Option.getD_some, List.append_assoc]
    rfl

/-- A text without double quotes between double quotes that loses no backslash means itself. -/
theorem literal_of_kept (w : Word) (hno : Byte.dquote ∉ s)
    (h : wordsFrom .dquote (some w) (s ++ Byte.dquote :: rest) = some ws)
    (hb : Kept Byte.backslash (some w) (s ++ Byte.dquote :: rest) ws) : Literal s := by
  unfold Literal
  induction s generalizing w with
  | nil => rfl
  | cons c s ih =>
    rw [List.mem_cons, not_or] at hno
    have hhead : (s ++ Byte.dquote :: rest).head? = some (s.headD Byte.dquote) := by cases s <;> rfl
    rw [List.cons_append] at h hb
    rcases act_dquote_cases (some w).isSome c (s ++ Byte.dquote :: rest).head? with ⟨hc, ha⟩ | ⟨hc, ha⟩ | ⟨⟨hc, hlit⟩, ha⟩ | ha
    · exact absurd hc.symm hno.1
    · rw [wordsFrom_drop ha] at h
      exact absurd hc (hb.dropped rfl h).1
    · rw [wordsFrom_emit ha] at h
      have hih := ih _ hno.2 h hb.emit
      simp only [literalBefore, Bool.and_eq_true]
      exact ⟨hlit _ hhead, hih⟩
    · rw [wordsFrom_refuse ha] at h
      cases h

/-- A text that means itself between double quotes, as a word of its own. -/
theorem wordsFrom_dquote_word (hl : Literal s) :
    wordsFrom .plain none (Byte.dquote :: (s ++ Byte.dquote :: Byte.space :: rest)) =
      (wordsFrom .plain none rest).map (quoted s :: ·) :=
  wordsFrom_literal [] hl

theorem words_dquote_word (hl : Literal s) :
    words (Byte.dquote :: (s ++ Byte.dquote :: Byte.space :: rest)) = (words rest).map (s :: ·) := by
  rw [words_cons (wordsFrom_dquote_word hl) (isPattern_quoted s), text_quoted]

/-- A text between double quotes at the end of a script is a word equal to it exactly when it means itself there. -/
theorem words_dquote_iff (a : Bytes) : words (Byte.dquote :: (a ++ [Byte.dquote])) = some [a] ↔ Literal a := by
  have hopen : wordsFrom .plain none (Byte.dquote :: (a ++ [Byte.dquote])) = wordsFrom .dquote (some []) (a ++ Byte.dquote :: []) :=
    rfl
  unfold words
  rw [wordsWith_eq_some_iff, hopen]
  constructor
  · rintro ⟨ws, h, -, htext⟩
    have hflat : ws.flatMap text = a := by rw [List.flatMap_def, htext, List.flatten_singleton]
    have hkept : ∀ q, q ≠ Byte.dquote → Kept q (some []) (a ++ Byte.dquote :: []) ws := by
      intro q hq
      simp [Kept, hflat, Ne.symm hq]
    have hb := hkept Byte.backslash (by decide)
    have hq := count_dquote_of_kept (Or.inr (Or.inl rfl)) h hb (hkept Byte.squote (by decide))
    rw [hflat, Option.getD_some, text_nil, List.count_nil, List.count_eq_zero] at hq
    exact literal_of_kept [] hq h hb
  · intro ha
    refine ⟨[quoted a], wordsFrom_literal [] ha, ?_, by simp⟩
    exact List.forall_mem_singleton.2 (by rw [isPattern_quoted]; rfl)

/-- The modes of a reader that is inside a word. -/
def Mode.InWord : Mode → Prop
  | .comment => False
  | .escape back => back = .plain ∨ back = .dquote
  | _ => True

/-- What the reader does outside comments, which begin outside words only: it loses no blank inside a word. -/
theorem act_cases (hmode : mode.InWord) (inWord : Bool) (c : UInt8) (behind : Option UInt8) :
    act mode inWord c behind = .blank ∨ act mode inWord c behind = .refuse ∨
    (∃ next, next.InWord ∧ next ≠ .escape .plain ∧ act mode inWord c behind = .emit next) ∨
    (∃ next, (next.InWord ∨ next = .comment ∧ inWord = false) ∧ c ≠ Byte.space ∧ act mode inWord c behind = .drop next) ∨
    ∃ next, next.InWord ∧ next ≠ .escape .plain ∧ c ≠ Byte.space ∧ act mode inWord c behind = .quote next := by
  have hspace : ∀ {b}, c = b → b ≠ Byte.space → c ≠ Byte.space := fun h hb => h ▸ hb
  cases mode with
  | plain =>
    rcases act_plain_cases inWord c behind with h | ⟨hc, h⟩ | ⟨hc, h⟩ | ⟨hc, h⟩ | ⟨hc, h⟩ | ⟨-, h⟩ | h
    · exact .inl h
    · exact .inr (.inr (.inr (.inr ⟨.dquote, trivial, nofun, hspace hc (by decide), h⟩)))
    · exact .inr (.inr (.inr (.inr ⟨.squote, trivial, nofun, hspace hc (by decide), h⟩)))
    · exact .inr (.inr (.inr (.inl ⟨.escape .plain, .inl (.inl rfl), hspace hc (by decide), h⟩)))
    · refine .inr (.inr (.inr (.inl ⟨.comment, .inr ⟨rfl, ?_⟩, hspace hc (by decide), h⟩)))
      subst hc
      cases inWord with
      | false => rfl
      | true =>
        have hemit : act .plain true Byte.hash behind = .emit .plain := rfl
        cases hemit.symm.trans h
    · exact .inr (.inr (.inl ⟨.plain, trivial, nofun, h⟩))
    · exact .inr (.inl h)
  | dquote =>
    rcases act_dquote_cases inWord c behind with ⟨hc, h⟩ | ⟨hc, h⟩ | ⟨-, h⟩ | h
    · exact .inr (.inr (.inr (.inr ⟨.plain, trivial, nofun, hspace hc (by decide), h⟩)))
    · exact .inr (.inr (.inr (.inl ⟨.escape .dquote, .inl (.inr rfl), hspace hc (by decide), h⟩)))
    · exact .inr (.inr (.inl ⟨.dquote, trivial, nofun, h⟩))
    · exact .inr (.inl h)
  | squote =>
    by_cases hn : c = Byte.nul
    · exact .inr (.inl (if_pos hn))
    by_cases hq : c = Byte.squote
    · exact .inr (.inr (.inr (.inr ⟨.plain, trivial, nofun, hspace hq (by decide), (if_neg hn).trans (if_pos hq)⟩)))
    · exact .inr (.inr (.inl ⟨.squote, trivial, nofun, (if_neg hn).trans (if_neg hq)⟩))
  | comment => exact hmode.elim
  | escape back =>
    have hback : back.InWord ∧ back ≠ .escape .plain := by rcases hmode with rfl | rfl <;> exact ⟨trivial, nofun⟩
    by_cases hn : c = Byte.nul
    · exact .inr (.inl (if_pos hn))
    by_cases hl : c = Byte.newline
    · exact .inr (.inr (.inr (.inl ⟨back, .inl hback.1, hspace hl (by decide), (if_neg hn).trans (if_pos hl)⟩)))
    · exact .inr (.inr (.inl ⟨back, hback.1, hback.2, (if_neg hn).trans (if_neg hl)⟩))

/-- The word that the reader is inside of is the first one, with what is read. -/
theorem exists_first_word (h : wordsFrom mode (some w₀) s = some ws) : ∃ x ws', ws = (w₀ ++ x) :: ws' := by
  induction s generalizing mode w₀ with
  | nil =>
    simp only [wordsFrom] at h
    split at h
    · cases h
      exact ⟨[], [], by simp⟩
    · cases h
  | cons c rest ih =>
    simp only [wordsFrom] at h
    split at h
    · obtain ⟨x, ws', rfl⟩ := ih h
      exact ⟨_, ws', by rw [Option.getD_some, List.append_assoc]⟩
    · exact ih h
    · exact ih h
    · obtain ⟨ws', -, rfl⟩ := Option.map_eq_some_iff.1 h
      exact ⟨[], ws', by simp⟩
    · cases h

/-- A word that ends at a byte is the first one. -/
theorem eq_of_blank (ha : act mode (some w₀).isSome c rest.head? = .blank) (h : wordsFrom mode (some w₀) (c :: rest) = some (w :: ws)) :
    w = w₀ := by
  rw [wordsFrom_blank ha] at h
  obtain ⟨ws', -, heq⟩ := Option.map_eq_some_iff.1 h
  exact (List.cons_eq_cons.1 heq).1.symm

/-- Between quotes the word that the reader is inside of takes a blank in. -/
theorem exists_blank_taken (hquotes : mode = .dquote ∨ mode = .squote)
    (h : wordsFrom mode (some w₀) (Byte.space :: rest) = some (w :: ws)) : ∃ x, text w = text w₀ ++ x ∧ 0 < x.count Byte.space := by
  have ha : act mode (some w₀).isSome Byte.space rest.head? = .emit mode := by rcases hquotes with rfl | rfl <;> rfl
  rw [wordsFrom_emit ha] at h
  obtain ⟨x, ws', heq⟩ := exists_first_word h
  obtain ⟨rfl, -⟩ := List.cons_eq_cons.1 heq
  refine ⟨Byte.space :: text x, ?_, by simp⟩
  rw [Option.getD_some, text_append, text_append, List.append_assoc]
  rfl

/-- At a double quote and a blank the word ends, unless it takes in that blank. A backslash adds the double quote to it. -/
theorem length_read_dquote_le (hmode : mode.InWord)
    (h : wordsFrom mode (some w₀) (Byte.dquote :: Byte.space :: rest) = some (w :: ws)) :
    ∃ x, text w = text w₀ ++ x ∧ (0 < x.count Byte.space ∨ x.length ≤ if mode = .escape .plain then 1 else 0) := by
  have hemitted : ∀ {next : Mode}, next = .dquote ∨ next = .squote →
      wordsFrom next (some (w₀ ++ [(Byte.dquote, decide (mode ≠ .plain))])) (Byte.space :: rest) = some (w :: ws) →
      ∃ x, text w = text w₀ ++ x ∧ 0 < x.count Byte.space := by
    intro next hnext hr
    obtain ⟨x, hx, hcount⟩ := exists_blank_taken hnext hr
    refine ⟨Byte.dquote :: x, ?_, Nat.lt_of_lt_of_le hcount List.count_le_count_cons⟩
    rw [hx, text_append, List.append_assoc]
    rfl
  cases mode with
  | plain =>
    rw [wordsFrom_quote rfl] at h
    obtain ⟨x, hx, hcount⟩ := exists_blank_taken (.inl rfl) h
    exact ⟨x, hx, .inl hcount⟩
  | dquote =>
    rw [wordsFrom_quote rfl] at h
    exact ⟨[], by rw [eq_of_blank rfl h, Option.getD_some, List.append_nil], .inr (Nat.zero_le _)⟩
  | squote =>
    rw [wordsFrom_emit rfl] at h
    obtain ⟨x, hx, hcount⟩ := hemitted (.inr rfl) h
    exact ⟨x, hx, .inl hcount⟩
  | comment => exact hmode.elim
  | escape back =>
    rw [wordsFrom_emit rfl] at h
    rcases hmode with rfl | rfl
    · exact ⟨[Byte.dquote], by rw [eq_of_blank rfl h, Option.getD_some, text_append]; rfl, .inr (by simp)⟩
    · obtain ⟨x, hx, hcount⟩ := hemitted (.inl rfl) h
      exact ⟨x, hx, .inl hcount⟩

/-- What is read of a text before a double quote and a blank is no longer than the text, unless it takes in that blank. A backslash
before the double quote adds one byte to it. -/
theorem length_read_le (hmode : mode.InWord)
    (h : wordsFrom mode (some w₀) (s ++ Byte.dquote :: Byte.space :: rest) = some (w :: ws)) :
    ∃ x, text w = text w₀ ++ x ∧ (s.count Byte.space < x.count Byte.space ∨
      x.length ≤ s.length + if mode = .escape .plain then 1 else 0) := by
  induction s generalizing mode w₀ with
  | nil =>
    obtain ⟨x, hx, hle⟩ := length_read_dquote_le hmode h
    exact ⟨x, hx, hle.imp_right fun hle => (Nat.zero_add _).symm ▸ hle⟩
  | cons c s ih =>
    rw [List.cons_append] at h
    rcases act_cases hmode (some w₀).isSome c (s ++ Byte.dquote :: Byte.space :: rest).head? with
      ha | ha | ⟨next, hin, hnext, ha⟩ | ⟨next, hin, hc, ha⟩ | ⟨next, hin, hnext, hc, ha⟩
    · exact ⟨[], by rw [eq_of_blank ha h, List.append_nil], .inr (Nat.zero_le _)⟩
    · rw [wordsFrom_refuse ha] at h
      cases h
    · rw [wordsFrom_emit ha] at h
      obtain ⟨x, hx, hle⟩ := ih hin h
      rw [if_neg hnext] at hle
      refine ⟨c :: x, ?_, hle.imp (fun hlt => ?_) fun hle => ?_⟩
      · rw [hx, Option.getD_some, text_append, List.append_assoc]
        rfl
      · rw [List.count_cons, List.count_cons]
        exact Nat.add_lt_add_right hlt _
      · exact Nat.le_add_right_of_le (Nat.succ_le_succ hle)
    · rw [wordsFrom_drop ha] at h
      obtain ⟨x, hx, hle⟩ := ih (hin.resolve_right fun hout => Bool.noConfusion hout.2) h
      refine ⟨x, hx, hle.imp (fun hlt => ?_) fun hle => ?_⟩
      · rw [List.count_cons_of_ne hc]
        exact hlt
      · have hone : (if next = .escape .plain then 1 else 0) ≤ 1 := by split <;> omega
        exact Nat.le_add_right_of_le (Nat.le_trans hle (Nat.add_le_add_left hone _))
    · rw [wordsFrom_quote ha] at h
      obtain ⟨x, hx, hle⟩ := ih hin h
      rw [if_neg hnext] at hle
      refine ⟨x, hx, hle.imp (fun hlt => ?_) fun hle => ?_⟩
      · rw [List.count_cons_of_ne hc]
        exact hlt
      · exact Nat.le_add_right_of_le (Nat.le_succ_of_le hle)

/-- A text between double quotes that is read back as the first word means itself there, whatever the words behind it are. -/
theorem literal_of_first_word (h : wordsFrom .dquote (some w₀) (s ++ Byte.dquote :: Byte.space :: rest) = some (w :: ws))
    (hw : text w = text w₀ ++ s) : Literal s := by
  unfold Literal
  induction s generalizing w₀ with
  | nil => rfl
  | cons c s ih =>
    -- a byte that is lost cannot be made up for: the word would have to go on behind the text, with a blank too many
    have hlost : ∀ {m : Mode}, c ≠ Byte.space → m.InWord → m ≠ .escape .plain →
        wordsFrom m (some w₀) (s ++ Byte.dquote :: Byte.space :: rest) ≠ some (w :: ws) := by
      intro m hc hin hm hr
      obtain ⟨x, hx, hle⟩ := length_read_le hin hr
      obtain rfl := List.append_cancel_left (hw.symm.trans hx)
      rw [List.count_cons_of_ne hc, if_neg hm] at hle
      rcases hle with hlt | hle
      · exact Nat.lt_irrefl _ hlt
      · exact Nat.not_succ_le_self _ hle
    have hhead : (s ++ Byte.dquote :: Byte.space :: rest).head? = some (s.headD Byte.dquote) := by cases s <;> rfl
    rw [List.cons_append] at h
    rcases act_dquote_cases (some w₀).isSome c (s ++ Byte.dquote :: Byte.space :: rest).head? with
      ⟨hc, ha⟩ | ⟨hc, ha⟩ | ⟨⟨-, hlit⟩, ha⟩ | ha
    · rw [wordsFrom_quote ha] at h
      exact absurd h (hlost (hc ▸ by decide) trivial nofun)
    · rw [wordsFrom_drop ha] at h
      exact absurd h (hlost (hc ▸ by decide) (.inr rfl) nofun)
    · rw [wordsFrom_emit ha] at h
      rw [literalBefore, Bool.and_eq_true]
      refine ⟨hlit _ hhead, ih h ?_⟩
      rw [hw, Option.getD_some, text_append, List.append_assoc]
      rfl
    · rw [wordsFrom_refuse ha] at h
      cases h

/-- A text between double quotes is the first word of a script exactly when it means itself there and the rest is words. -/
theorem words_dquote_first_iff {a : Bytes} {ts : List Bytes} :
    words (Byte.dquote :: (a ++ Byte.dquote :: Byte.space :: rest)) = some (a :: ts) ↔ Literal a ∧ words rest = some ts := by
  constructor
  · intro h
    obtain ⟨ws, hws, -, htext⟩ := wordsWith_eq_some_iff.1 h
    obtain ⟨w, ws', rfl⟩ : ∃ w ws', ws = w :: ws' := by
      cases ws with
      | nil => cases htext
      | cons w ws' => exact ⟨w, ws', rfl⟩
    rw [List.map_cons, List.cons.injEq] at htext
    have hopen : wordsFrom .dquote (some []) (a ++ Byte.dquote :: Byte.space :: rest) = some (w :: ws') := hws
    have ha := literal_of_first_word hopen htext.1
    rw [words_dquote_word ha, Option.map_eq_some_iff] at h
    obtain ⟨ts', hts, heq⟩ := h
    rw [List.cons.injEq] at heq
    exact ⟨ha, heq.2 ▸ hts⟩
  · rintro ⟨ha, hrest⟩
    rw [words_dquote_word ha, hrest]
    rfl

/-- Two texts between double quotes, with a blank between them, are two words equal to them exactly when each means itself
there. -/
theorem words_dquote_pair_iff (a b : Bytes) :
    words (Byte.dquote :: (a ++ Byte.dquote :: Byte.space :: Byte.dquote :: (b ++ [Byte.dquote]))) = some [a, b] ↔
      Literal a ∧ Literal b := by
  rw [words_dquote_first_iff, words_dquote_iff]

/-! ## Outside quotes -/

/-- A run of bytes that mean themselves outside quotes is part of the word. -/
theorem wordsFrom_inert (hin : ∀ c ∈ s, inert c = true) (w : Word) :
    wordsFrom .plain (some w) (s ++ rest) = wordsFrom .plain (some (w ++ bare s)) rest := by
  induction s generalizing w with
  | nil =>
    have hnil : w ++ bare [] = w := List.append_nil w
    rw [List.nil_append, hnil]
  | cons c s ih =>
    rw [List.cons_append, wordsFrom_emit (act_of_inert (hin c List.mem_cons_self) _ _),
      ih fun c' hc' => hin c' (List.mem_cons_of_mem c hc'), Option.getD_some, List.append_assoc]
    rfl

/-- A script that begins with bytes that mean themselves. -/
theorem wordsFrom_start (hne : s ≠ []) (hin : ∀ c ∈ s, inert c = true) :
    wordsFrom .plain none (s ++ rest) = wordsFrom .plain (some (bare s)) rest := by
  cases s with
  | nil => exact absurd rfl hne
  | cons c s =>
    rw [List.cons_append, wordsFrom_emit (act_of_inert (hin c List.mem_cons_self) _ _),
      wordsFrom_inert fun c' hc' => hin c' (List.mem_cons_of_mem c hc')]
    rfl

/-- A word that means itself outside quotes: it is not empty, and each of its bytes means itself. -/
def Plain (w : Bytes) : Prop := w ≠ [] ∧ ∀ c ∈ w, inert c = true

instance (w : Bytes) : Decidable (Plain w) := inferInstanceAs (Decidable (_ ∧ _))

/-- A word is checked byte by byte. -/
theorem plain_of_all {w : Bytes} (hne : w ≠ []) (h : w.all inert = true) : Plain w := ⟨hne, List.all_eq_true.1 h⟩

/-- A word that means itself outside quotes, up to the blank behind it. -/
theorem wordsFrom_plain_word (h : Plain s) :
    wordsFrom .plain none (s ++ Byte.space :: rest) = (wordsFrom .plain none rest).map (bare s :: ·) :=
  wordsFrom_start h.1 h.2

theorem words_plain_word (h : Plain s) : words (s ++ Byte.space :: rest) = (words rest).map (s :: ·) := by
  rw [words_cons (wordsFrom_plain_word h) (isPattern_bare_of_inert h.2), text_bare]

/-- A line of words that mean themselves, with a blank between any two, is these words. -/
theorem words_intercalate {w : Bytes} {ws : List Bytes} (h : ∀ w' ∈ w :: ws, Plain w') :
    words ([Byte.space].intercalate (w :: ws)) = some (w :: ws) := by
  induction ws generalizing w with
  | nil =>
    have hw := h w List.mem_cons_self
    have hread : wordsFrom .plain none (w ++ []) = some [bare w] := wordsFrom_start hw.1 hw.2
    rw [List.append_nil] at hread
    rw [List.intercalate_singleton]
    refine wordsWith_eq_some_iff.2 ⟨[bare w], hread, ?_, by simp⟩
    exact List.forall_mem_singleton.2 (by rw [isPattern_bare_of_inert hw.2]; rfl)
  | cons w' ws ih =>
    have hrest := ih fun w'' hw'' => h w'' (List.mem_cons_of_mem w hw'')
    rw [List.intercalate_cons_cons, List.append_assoc, List.singleton_append, words_plain_word (h w List.mem_cons_self), hrest]
    rfl

/-! ## Characters of several bytes -/

/-- A byte that is part of a longer character means itself wherever it is not part of a comment. -/
theorem act_of_high (hc : 0x80 ≤ c) (hmode : mode.InWord) (inWord : Bool) (behind : Option UInt8) :
    ∃ next, next.InWord ∧ act mode inWord c behind = .emit next := by
  have hne : ∀ {b : UInt8}, b < 0x80 → c ≠ b := fun hb heq => absurd hc (by rw [heq]; exact UInt8.not_le.2 hb)
  have h0 := hne (b := Byte.nul) (by decide)
  cases mode with
  | plain =>
    refine ⟨.plain, trivial, act_of_inert ?_ inWord behind⟩
    simp [inert, active, patternByte, h0, hne (b := Byte.space) (by decide), hne (b := Byte.tab) (by decide),
      hne (b := Byte.dquote) (by decide), hne (b := Byte.squote) (by decide), hne (b := Byte.backslash) (by decide),
      hne (b := Byte.dollar) (by decide), hne (b := Byte.hash) (by decide), hne (b := Byte.tilde) (by decide),
      hne (b := Byte.newline) (by decide), hne (b := Byte.backtick) (by decide), hne (b := 0x7b) (by decide),
      hne (b := 0x26) (by decide), hne (b := 0x28) (by decide), hne (b := 0x29) (by decide), hne (b := 0x3b) (by decide),
      hne (b := 0x3c) (by decide), hne (b := 0x3e) (by decide), hne (b := 0x7c) (by decide), hne (b := 0x2a) (by decide),
      hne (b := 0x3f) (by decide), hne (b := 0x5b) (by decide)]
  | dquote =>
    refine ⟨.dquote, trivial, ?_⟩
    simp [act, h0, hne (b := Byte.dquote) (by decide), hne (b := Byte.backslash) (by decide), hne (b := Byte.dollar) (by decide),
      hne (b := Byte.backtick) (by decide)]
  | squote => exact ⟨.squote, trivial, (if_neg h0).trans (if_neg (hne (by decide)))⟩
  | comment => exact hmode.elim
  | escape back =>
    refine ⟨back, ?_, (if_neg h0).trans (if_neg (hne (by decide)))⟩
    rcases hmode with rfl | rfl <;> trivial

/-- Bytes of longer characters are all lost in a comment, and all read elsewhere. -/
theorem wordsFrom_high (hs : ∀ c ∈ s, 0x80 ≤ c) (hmode : mode.InWord ∨ mode = .comment) :
    ∃ next word', wordsFrom mode word (s ++ rest) = wordsFrom next word' rest ∧ (next.InWord ∨ next = .comment) ∧
      (text (word'.getD []) = text (word.getD []) ∨ text (word'.getD []) = text (word.getD []) ++ s) := by
  rcases hmode with hmode | rfl
  · -- outside a comment, none is lost
    suffices hall : ∃ next word', wordsFrom mode word (s ++ rest) = wordsFrom next word' rest ∧ next.InWord ∧
        text (word'.getD []) = text (word.getD []) ++ s by
      obtain ⟨next, word', hrest, hin, htext⟩ := hall
      exact ⟨next, word', hrest, .inl hin, .inr htext⟩
    induction s generalizing mode word with
    | nil => exact ⟨mode, word, rfl, hmode, (List.append_nil _).symm⟩
    | cons c s ih =>
      obtain ⟨next, hin, ha⟩ := act_of_high (hs c List.mem_cons_self) hmode word.isSome (s ++ rest).head?
      obtain ⟨next', word', hrest, hin', htext⟩ := ih (fun c' hc' => hs c' (List.mem_cons_of_mem c hc')) hin
      refine ⟨next', word', ?_, hin', ?_⟩
      · rw [List.cons_append, wordsFrom_emit ha, hrest]
      · rw [htext, Option.getD_some, text_append, List.append_assoc]
        rfl
  · refine ⟨.comment, word, ?_, .inr rfl, .inl rfl⟩
    induction s with
    | nil => rfl
    | cons c s ih =>
      have hc := hs c List.mem_cons_self
      have ha : act .comment word.isSome c (s ++ rest).head? = .drop .comment := by
        have hne : ∀ {b : UInt8}, b < 0x80 → c ≠ b := fun hb heq => absurd hc (by rw [heq]; exact UInt8.not_le.2 hb)
        exact (if_neg (hne (by decide))).trans (if_neg (hne (by decide)))
      rw [List.cons_append, wordsFrom_drop ha]
      exact ih fun c' hc' => hs c' (List.mem_cons_of_mem c hc')

/-- A text is a sequence of characters. -/
def Made (IsChar : Bytes → Prop) (s : Bytes) : Prop := ∃ us : List Bytes, (∀ u ∈ us, IsChar u) ∧ s = us.flatten

/-- The words of a text are made of the same characters as the text, when each of them is one byte or has high bytes only. -/
theorem wordsFrom_made {IsChar : Bytes → Prop} (hchar : ∀ u, IsChar u → (∃ c, u = [c]) ∨ ∀ c ∈ u, 0x80 ≤ c)
    (hmode : mode.InWord ∨ mode = .comment) (hword : Made IsChar (text (word.getD []))) (hs : Made IsChar s)
    (h : wordsFrom mode word s = some ws) : ∀ w ∈ ws, Made IsChar (text w) := by
  obtain ⟨us, hus, rfl⟩ := hs
  have hcons : ∀ {t u}, Made IsChar t → IsChar u → Made IsChar (t ++ u) := by
    rintro t u ⟨vs, hvs, rfl⟩ hu
    refine ⟨vs ++ [u], ?_, by simp⟩
    rw [List.forall_mem_append, List.forall_mem_singleton]
    exact ⟨hvs, hu⟩
  have hnil : Made IsChar [] := ⟨[], nofun, rfl⟩
  induction us generalizing mode word ws with
  | nil =>
    rw [List.flatten_nil, wordsFrom] at h
    split at h
    · cases h
      cases word with
      | none => nofun
      | some w => exact List.forall_mem_singleton.2 hword
    · cases h
  | cons u us ih =>
    obtain ⟨hu, hrest⟩ := List.forall_mem_cons.1 hus
    rw [List.flatten_cons] at h
    rcases hchar u hu with ⟨c, rfl⟩ | hhigh
    · rw [List.singleton_append] at h
      have hadd : ∀ quoted : Bool, Made IsChar (text ((some (word.getD [] ++ [(c, quoted)])).getD [])) := by
        intro quoted
        rw [Option.getD_some, text_append]
        exact hcons hword hu
      rcases hmode with hmode | rfl
      · rcases act_cases hmode word.isSome c us.flatten.head? with
          ha | ha | ⟨next, hin, -, ha⟩ | ⟨next, hin, -, ha⟩ | ⟨next, hin, -, -, ha⟩
        · rw [wordsFrom_blank ha] at h
          obtain ⟨ws', hws, rfl⟩ := Option.map_eq_some_iff.1 h
          rw [List.forall_mem_append]
          have hstart : Made IsChar (text ((none : Option Word).getD [])) := hnil
          refine ⟨?_, ih (.inl trivial : Mode.plain.InWord ∨ _) hstart hrest hws⟩
          cases word with
          | none => nofun
          | some w => exact List.forall_mem_singleton.2 hword
        · rw [wordsFrom_refuse ha] at h
          cases h
        · rw [wordsFrom_emit ha] at h
          exact ih (.inl hin) (hadd _) hrest h
        · rw [wordsFrom_drop ha] at h
          exact ih (hin.imp_right And.left) hword hrest h
        · rw [wordsFrom_quote ha] at h
          have hopened : Made IsChar (text ((some (word.getD [])).getD [])) := hword
          exact ih (.inl hin) hopened hrest h
      · by_cases hend : c = Byte.nul ∨ c = Byte.newline
        · have ha : act .comment word.isSome c us.flatten.head? = .refuse := by rcases hend with rfl | rfl <;> rfl
          rw [wordsFrom_refuse ha] at h
          cases h
        · rw [not_or] at hend
          have ha : act .comment word.isSome c us.flatten.head? = .drop .comment := (if_neg hend.1).trans (if_neg hend.2)
          rw [wordsFrom_drop ha] at h
          exact ih (.inr rfl) hword hrest h
    · obtain ⟨next, word', heq, hin, htext⟩ : ∃ next word', wordsFrom mode word (u ++ us.flatten) = _ ∧ _ :=
        wordsFrom_high hhigh hmode
      rw [heq] at h
      refine ih hin ?_ hrest h
      rcases htext with htext | htext
      · rw [htext]
        exact hword
      · rw [htext]
        exact hcons hword hu

end

end Shell
