import Anylinuxfs.Lib.ExportsLinux

/-!
# Exports files with quoted paths

An exports file of Linux that is written line by line: a path in quotes, a gap and one client with options. `linux_renderAll_iff`
says when the entries of the file are the ones it was written for.
-/

namespace Exports

/-! ## Lines -/

/-- A line with a quoted path. -/
def render (gap host : List UInt8) (e : List UInt8 × List UInt8) : List UInt8 :=
  quote :: (e.1 ++ quote :: (gap ++ (host ++ opening :: (e.2 ++ [closing, newline]))))

/-- What a line is written for. -/
def entryOf (host : List UInt8) (e : List UInt8 × List UInt8) : Entry := ⟨e.1, [⟨host, some e.2⟩]⟩

/-- A quoted path that is read as it stands. -/
structure Quotable (path : List UInt8) : Prop where
  unquoted : quote ∉ path
  unescaped : hasEscape path = false
  unbroken : ¬ [backslash, newline] <:+: path

/-- Options that are read as they stand. -/
structure Plain (options : List UInt8) : Prop where
  unspaced : ∀ b ∈ options, isWhite b = false
  unquoted : quote ∉ options
  unescaped : hasEscape options = false
  unclosed : closing ∉ options

/-- A byte that stands for itself wherever it is in the options. -/
def isPlain (b : UInt8) : Bool := !isWhite b && b ≠ quote && b ≠ backslash && b ≠ closing

/-- Bytes that stand for themselves can be put behind options. -/
theorem plain_append_iff {options rest : List UInt8} (hstart : ∀ b ∈ rest.head?, isOctal b = false)
    (hrest : ∀ b ∈ rest, isPlain b = true) : Plain (options ++ rest) ↔ Plain options := by
  have hbytes : ∀ b ∈ rest, isWhite b = false ∧ b ≠ quote ∧ b ≠ backslash ∧ b ≠ closing := fun b hb => by
    simpa [isPlain, and_assoc] using hrest b hb
  have hescape : hasEscape (options ++ rest) = hasEscape options := by
    cases rest with
    | nil => rw [List.append_nil]
    | cons b rest =>
      have hnone : hasEscape (b :: rest) = false := hasEscape_of_notMem fun hmem => (hbytes _ hmem).2.2.1 rfl
      rw [hasEscape_append (hstart b rfl), hnone, Bool.or_false]
  constructor
  · intro h
    exact ⟨fun b hb => h.unspaced b (List.mem_append_left _ hb), fun hmem => h.unquoted (List.mem_append_left _ hmem),
      hescape ▸ h.unescaped, fun hmem => h.unclosed (List.mem_append_left _ hmem)⟩
  · intro h
    refine ⟨fun b hb => ?_, fun hmem => ?_, hescape ▸ h.unescaped, fun hmem => ?_⟩
    · exact (List.mem_append.1 hb).elim (h.unspaced b) fun hb => (hbytes b hb).1
    · exact (List.mem_append.1 hmem).elim h.unquoted fun hb => (hbytes _ hb).2.1 rfl
    · exact (List.mem_append.1 hmem).elim h.unclosed fun hb => (hbytes _ hb).2.2.2 rfl

/-- A gap between two words. -/
structure Gap (gap : List UInt8) : Prop where
  nonempty : gap ≠ []
  spaces : ∀ b ∈ gap, isSpace b = true

/-- A host that is read as it stands. -/
structure Host (host : List UInt8) : Prop where
  start : ∀ b ∈ host.head?, b ≠ hash
  bytes : ∀ b ∈ host, isWhite b = false ∧ isMark b = false ∧ b ≠ opening ∧ b ≠ closing

/-- Options without white space continue no line. -/
theorem Plain.unbroken {options : List UInt8} (h : Plain options) : ¬ [backslash, newline] <:+: options := fun hin =>
  absurd (h.unspaced newline (hin.subset (by simp))) (by decide)

/-! ## Words -/

theorem lex_between_space {b : UInt8} (h : isSpace b = true) (text : List UInt8) : lex .between (b :: text) = lex .between text := by
  have hne : b ≠ newline := by
    rintro rfl
    exact absurd h (by decide)
  rw [lex, if_neg hne, if_pos h]

/-- Behind white space, a word may start. -/
theorem lex_between_gap {gap : List UInt8} (h : ∀ b ∈ gap, isSpace b = true) (text : List UInt8) :
    lex .between (gap ++ text) = lex .between text := by
  induction gap with
  | nil => rfl
  | cons b gap ih =>
    rw [List.cons_append, lex_between_space (h b List.mem_cons_self)]
    exact ih fun c hc => h c (List.mem_cons_of_mem b hc)

/-- White space ends a word. -/
theorem lex_word_gap {gap : List UInt8} (h : Gap gap) (text : List UInt8) :
    lex (.word false) (gap ++ text) = endWord (lex .between text) := by
  obtain ⟨hne, hspaces⟩ := h
  cases gap with
  | nil => exact absurd rfl hne
  | cons b gap =>
    have hspace := hspaces b List.mem_cons_self
    have hnewline : b ≠ newline := by
      rintro rfl
      exact absurd hspace (by decide)
    rw [List.cons_append, lex, if_neg hnewline, if_pos hspace, lex_between_gap fun c hc => hspaces c (List.mem_cons_of_mem b hc)]

/-- A quoted text is a part of the word. -/
theorem lex_quoted {s : List UInt8} (h : quote ∉ s) (text : List UInt8) :
    lex (.word true) (s ++ quote :: text) = s.foldr addByte (lex (.word false) text) := by
  induction s with
  | nil => rw [List.nil_append, lex, if_pos rfl, List.foldr_nil]
  | cons b s ih =>
    rw [List.mem_cons, not_or] at h
    rw [List.cons_append, lex, if_neg (Ne.symm h.1), ih h.2, List.foldr_cons]

theorem foldr_addByte (s word : List UInt8) (line : List (List UInt8)) (lines : List (List (List UInt8))) :
    s.foldr addByte ((word :: line) :: lines) = ((s ++ word) :: line) :: lines := by
  induction s with
  | nil => rfl
  | cons b s ih => rw [List.foldr_cons, ih, addByte, List.cons_append]

/-- A byte that starts a word. -/
theorem lex_between_word {b : UInt8} (hwhite : isWhite b = false) (hhash : b ≠ hash) (text : List UInt8) :
    lex .between (b :: text) = lex (.word false) (b :: text) := by
  have hspace : isSpace b = false := (Bool.or_eq_false_iff.1 hwhite).1
  have hnewline : b ≠ newline := by
    rintro rfl
    exact absurd hwhite (by decide)
  simp only [lex, if_neg hnewline, hspace, if_neg hhash, Bool.false_eq_true, if_false]

/-- A word goes on in the first line. -/
theorem lex_word_eq_cons (quoted : Bool) (text : List UInt8) :
    ∃ word line lines, lex (.word quoted) text = (word :: line) :: lines := by
  induction text generalizing quoted with
  | nil => exact ⟨[], [], [], rfl⟩
  | cons b text ih =>
    have hadd : ∀ quoted, ∃ word line lines, addByte b (lex (.word quoted) text) = (word :: line) :: lines := by
      intro quoted
      obtain ⟨word, line, lines, heq⟩ := ih quoted
      exact ⟨b :: word, line, lines, by rw [heq, addByte]⟩
    cases quoted with
    | false =>
      rw [lex]
      split
      · exact ⟨_, _, _, rfl⟩
      split
      · cases lex .between text with
        | nil => exact ⟨_, _, _, rfl⟩
        | cons line lines => exact ⟨_, _, _, rfl⟩
      split
      · exact ih true
      · exact hadd false
    | true =>
      rw [lex]
      split
      · exact ih false
      · exact hadd true

theorem lex_ne_nil (m : Mode) (text : List UInt8) : lex m text ≠ [] := by
  induction text generalizing m with
  | nil => cases m <;> exact List.cons_ne_nil _ _
  | cons b text ih =>
    cases m with
    | word quoted =>
      obtain ⟨word, line, lines, heq⟩ := lex_word_eq_cons quoted (b :: text)
      exact heq ▸ List.cons_ne_nil _ _
    | comment =>
      rw [lex]
      split
      · exact List.cons_ne_nil _ _
      · exact ih _
    | between =>
      obtain ⟨word, line, lines, heq⟩ := lex_word_eq_cons false text
      rw [lex, heq, addByte]
      repeat' split
      all_goals first | exact List.cons_ne_nil _ _ | exact ih _

/-- A text without quotes is read up to the end of its line, whatever follows. -/
theorem lex_append {s : List UInt8} (h : quote ∉ s) {m : Mode} (hm : m ≠ .word true) (text : List UInt8) :
    lex m (s ++ newline :: text) = lex m s ++ lex .between text := by
  have hadd : ∀ (b : UInt8) (s : List UInt8) (lines : List (List (List UInt8))),
      addByte b (lex (.word false) s ++ lines) = addByte b (lex (.word false) s) ++ lines := by
    intro b s lines
    obtain ⟨word, line, rest, heq⟩ := lex_word_eq_cons false s
    rw [heq, addByte, List.cons_append, addByte, List.cons_append]
  have hend : ∀ (s : List UInt8) (lines : List (List (List UInt8))),
      endWord (lex .between s ++ lines) = endWord (lex .between s) ++ lines := by
    intro s lines
    cases hlex : lex .between s with
    | nil => exact absurd hlex (lex_ne_nil _ _)
    | cons line rest => rfl
  induction s generalizing m with
  | nil =>
    cases m with
    | between => rfl
    | comment => rfl
    | word quoted =>
      cases quoted with
      | true => exact absurd rfl hm
      | false => rfl
  | cons b s ih =>
    rw [List.mem_cons, not_or] at h
    have hquote : b ≠ quote := Ne.symm h.1
    have hbetween := @ih h.2 .between (by simp)
    have hcomment := @ih h.2 .comment (by simp)
    have hword := @ih h.2 (.word false) (by simp)
    rw [List.cons_append]
    cases m with
    | between =>
      rw [lex, lex]
      simp only [hbetween, hcomment, hword, hadd, if_neg hquote]
      repeat' split
      all_goals rfl
    | comment =>
      rw [lex, lex]
      simp only [hbetween, hcomment]
      split
      · rfl
      · rfl
    | word quoted =>
      cases quoted with
      | true => exact absurd rfl hm
      | false =>
        rw [lex, lex]
        simp only [hbetween, hword, hadd, hend, if_neg hquote]
        repeat' split
        all_goals rfl

/-- A word goes on to the next white space. -/
theorem lex_word {s : List UInt8} (h : quote ∉ s) : ∃ line lines,
    lex (.word false) s = (s.takeWhile (isWhite · = false) :: line) :: lines ∧
      ((∀ b ∈ s, isWhite b = false) → line = [] ∧ lines = []) := by
  induction s with
  | nil => exact ⟨[], [], rfl, fun _ => ⟨rfl, rfl⟩⟩
  | cons b s ih =>
    rw [List.mem_cons, not_or] at h
    obtain ⟨line, lines, heq, hall⟩ := ih h.2
    by_cases hwhite : isWhite b = true
    · have htake : (b :: s).takeWhile (isWhite · = false) = [] := List.takeWhile_cons_of_neg (by simp [hwhite])
      have hnone : ¬ ∀ c ∈ b :: s, isWhite c = false := fun hall => by
        rw [hall b List.mem_cons_self] at hwhite
        cases hwhite
      rw [htake, lex]
      split
      · exact ⟨[], lex .between s, rfl, fun hall => absurd hall hnone⟩
      · next hnewline =>
        have hspace : isSpace b = true := by simpa [isWhite, hnewline] using hwhite
        cases hlex : lex .between s with
        | nil => exact absurd hlex (lex_ne_nil _ _)
        | cons line lines => exact ⟨line, lines, by rw [if_pos hspace, endWord], fun hall => absurd hall hnone⟩
    · have hword : isSpace b = false ∧ b ≠ newline := by simpa [isWhite] using hwhite
      have htake : (b :: s).takeWhile (isWhite · = false) = b :: s.takeWhile (isWhite · = false) :=
        List.takeWhile_cons_of_pos (by simpa using hwhite)
      refine ⟨line, lines, ?_, fun hnone => hall fun c hc => hnone c (List.mem_cons_of_mem b hc)⟩
      rw [htake, lex, if_neg hword.2, hword.1, if_neg Bool.false_ne_true, if_neg (Ne.symm h.1), heq, addByte]

/-- A line that is written with a path and a client starts with the path and the client, the latter up to the first white space
in the options. The rest of the file is read on its own. -/
theorem lex_render {gap host : List UInt8} (hgap : Gap gap) (hhost : Host host) {path options : List UInt8} (hpath : quote ∉ path)
    (hoptions : quote ∉ options) (text : List UInt8) : ∃ line lines, lex .between (render gap host (path, options) ++ text) =
      (path :: (host ++ opening :: (options ++ [closing]).takeWhile (isWhite · = false)) :: line) :: lines ++ lex .between text ∧
        ((∀ b ∈ options, isWhite b = false) → line = [] ∧ lines = []) := by
  have hquote : quote ∉ host ++ opening :: (options ++ [closing]) := by
    have hmark : isMark quote = true := by decide
    have hopening : quote ≠ opening := by decide
    have hclosing : quote ≠ closing := by decide
    simp only [List.mem_append, List.mem_cons, List.not_mem_nil, or_false, not_or]
    exact ⟨fun hmem => absurd (hmark.symm.trans (hhost.bytes _ hmem).2.1) (by simp), hopening, hoptions, hclosing⟩
  have hstart : lex .between (host ++ opening :: (options ++ [closing]) ++ newline :: text) =
      lex (.word false) (host ++ opening :: (options ++ [closing]) ++ newline :: text) := by
    cases hcons : host with
    | nil => exact lex_between_word (by decide) (by decide) _
    | cons b host =>
      rw [hcons] at hhost
      exact lex_between_word (hhost.bytes b List.mem_cons_self).1 (hhost.start b rfl) _
  have htake : (host ++ opening :: (options ++ [closing])).takeWhile (isWhite · = false) =
      host ++ opening :: (options ++ [closing]).takeWhile (isWhite · = false) := by
    rw [List.takeWhile_append_of_pos fun b hb => by simpa using (hhost.bytes b hb).1,
      List.takeWhile_cons_of_pos (by decide)]
  obtain ⟨line, lines, hword, hall⟩ := lex_word hquote
  refine ⟨line, lines, ?_, fun hnone => hall fun b hb => ?_⟩
  · have hopen : ∀ rest, lex .between (quote :: rest) = lex (.word true) rest := fun _ => rfl
    have hrender : render gap host (path, options) ++ text =
        quote :: (path ++ quote :: (gap ++ (host ++ opening :: (options ++ [closing]) ++ newline :: text))) := by
      simp [render]
    rw [hrender, hopen, lex_quoted hpath, lex_word_gap hgap, hstart, lex_append hquote (by simp), hword, htake, List.cons_append,
      endWord, foldr_addByte, List.append_nil, List.cons_append]
  · simp only [List.mem_append, List.mem_cons, List.not_mem_nil, or_false] at hb
    rcases hb with hb | rfl | hb | rfl
    · exact (hhost.bytes b hb).1
    · decide
    · exact hnone b hb
    · decide

/-! ## Files -/

/-- What is written for many. -/
def renderAll (gap host : List UInt8) (l : List (List UInt8 × List UInt8)) : List UInt8 := l.flatMap (render gap host)

section Read

variable {gap host : List UInt8}

theorem Host.notMem_backslash (h : Host host) : backslash ∉ host := fun hmem =>
  absurd (h.bytes _ hmem).2.1 (by decide)

theorem Gap.notMem_backslash (h : Gap gap) : backslash ∉ gap := fun hmem => absurd (h.spaces _ hmem) (by decide)

theorem joinLines_render (hgap : Gap gap) (hhost : Host host) (path options text : List UInt8) :
    joinLines (render gap host (path, options) ++ text) =
      render gap host (joinLines path, joinLines options) ++ joinLines text := by
  have hstart : joinLines (gap ++ host ++ [opening] ++ (options ++ closing :: newline :: text)) =
      gap ++ host ++ [opening] ++ (joinLines options ++ closing :: newline :: joinLines text) := by
    rw [joinLines_append_left, joinLines_append (by decide) (by decide), joinLines_cons (by decide)]
    simp only [List.mem_append, List.mem_singleton, not_or]
    exact ⟨⟨hgap.notMem_backslash, hhost.notMem_backslash⟩, by decide⟩
  have hrender : ∀ path options text : List UInt8, render gap host (path, options) ++ text =
      quote :: (path ++ quote :: (gap ++ host ++ [opening] ++ (options ++ closing :: newline :: text))) := by
    intro path options text
    simp [render]
  rw [hrender, hrender, joinLines_cons (by decide), joinLines_append (by decide) (by decide), hstart]

theorem joinLines_renderAll (hgap : Gap gap) (hhost : Host host) (l : List (List UInt8 × List UInt8)) :
    joinLines (renderAll gap host l) = renderAll gap host (l.map fun e => (joinLines e.1, joinLines e.2)) := by
  induction l with
  | nil => rfl
  | cons e l ih =>
    obtain ⟨path, options⟩ := e
    unfold renderAll at *
    rw [List.flatMap_cons, joinLines_render hgap hhost, ih, List.map_cons, List.flatMap_cons]

theorem hasEscape_client (hhost : Host host) (options : List UInt8) :
    hasEscape (host ++ opening :: (options ++ [closing])) = hasEscape options := by
  have hlast : hasEscape [closing] = false := rfl
  rw [hasEscape_append (by decide), hasEscape_of_notMem hhost.notMem_backslash, hasEscape_cons (by decide),
    hasEscape_append (by decide), hlast, Bool.false_or, Bool.or_false]

theorem parseClient_of_plain (hhost : Host host) {options : List UInt8} (h : closing ∉ options) :
    parseClient (host ++ opening :: (options ++ [closing])) = some ⟨host, some options⟩ := by
  have hopen : ∀ b ∈ host, decide (b ≠ opening) = true := fun b hb => decide_eq_true (hhost.bytes b hb).2.2.1
  have hclose : ∀ b ∈ options, decide (b ≠ closing) = true := fun b hb => decide_eq_true fun heq => h (heq ▸ hb)
  have hdrop : (host ++ opening :: (options ++ [closing])).dropWhile (· ≠ opening) = opening :: (options ++ [closing]) := by
    rw [List.dropWhile_append_of_pos hopen, List.dropWhile_cons_of_neg (by simp)]
  have htake : (host ++ opening :: (options ++ [closing])).takeWhile (· ≠ opening) = host := by
    rw [List.takeWhile_append_of_pos hopen, List.takeWhile_cons_of_neg (by simp), List.append_nil]
  have hlast : (options ++ [closing]).dropWhile (· ≠ closing) = [closing] := by
    rw [List.dropWhile_append_of_pos hclose, List.dropWhile_cons_of_neg (by simp)]
  have hlist : (options ++ [closing]).takeWhile (· ≠ closing) = options := by
    rw [List.takeWhile_append_of_pos hclose, List.takeWhile_cons_of_neg (by simp), List.append_nil]
  rw [parseClient, if_pos (by simp), hdrop, htake]
  simp only [List.tail_cons, hlast, hlist, if_true]

theorem takeWhile_options {options : List UInt8} (h : ∀ b ∈ options, isWhite b = false) :
    (options ++ [closing]).takeWhile (isWhite · = false) = options ++ [closing] := by
  have hall : ∀ b ∈ options, decide (isWhite b = false) = true := fun b hb => decide_eq_true (h b hb)
  have hclosing : [closing].takeWhile (isWhite · = false) = [closing] := rfl
  rw [List.takeWhile_append_of_pos hall, hclosing]

/-- What stands as it is meant is read back. -/
theorem linux_renderAll (hgap : Gap gap) (hhost : Host host) {l : List (List UInt8 × List UInt8)}
    (h : ∀ e ∈ l, Quotable e.1 ∧ Plain e.2) : linux (renderAll gap host l) = some (l.map (entryOf host)) := by
  have hjoin : l.map (fun e => (joinLines e.1, joinLines e.2)) = l := by
    refine (List.map_congr_left fun e he => ?_).trans (List.map_id l)
    obtain ⟨hpath, hoptions⟩ := h e he
    rw [joinLines_eq_self_iff.2 hpath.unbroken, joinLines_eq_self_iff.2 hoptions.unbroken, id_eq]
  rw [linux, joinLines_renderAll hgap hhost, hjoin]
  clear hjoin
  induction l with
  | nil => rfl
  | cons e l ih =>
    obtain ⟨path, options⟩ := e
    obtain ⟨hpath, hoptions⟩ := h _ List.mem_cons_self
    obtain ⟨line, lines, hlex, hall⟩ := lex_render hgap hhost hpath.unquoted hoptions.unquoted (renderAll gap host l)
    obtain ⟨rfl, rfl⟩ := hall hoptions.unspaced
    have hclient : parseClient (decode (host ++ opening :: (options ++ [closing]))) = some ⟨host, some options⟩ := by
      rw [decode_of_hasEscape ((hasEscape_client hhost options).trans hoptions.unescaped),
        parseClient_of_plain hhost hoptions.unclosed]
    have hrest := ih fun e he => h e (List.mem_cons_of_mem _ he)
    rw [renderAll, List.flatMap_cons]
    change parseLines (lex .between (render gap host (path, options) ++ renderAll gap host l)) = _
    rw [hlex, takeWhile_options hoptions.unspaced, List.singleton_append]
    refine parseLines_cons_eq_some.2 ⟨_, .cons hclient .nil, _, hrest, ?_⟩
    rw [decode_of_hasEscape hpath.unescaped, List.map_cons, entryOf]

/-- Sums that do not fall are the same summand by summand. -/
theorem le_of_sum_le {α : Type} {l : List α} {f g : α → Nat} (hle : ∀ a ∈ l, g a ≤ f a) (h : (l.map f).sum ≤ (l.map g).sum) :
    ∀ a ∈ l, f a ≤ g a := by
  induction l with
  | nil => exact fun _ ha => absurd ha List.not_mem_nil
  | cons a l ih =>
    have hhead := hle a List.mem_cons_self
    have htail : (l.map g).sum ≤ (l.map f).sum := List.sum_le_sum fun b hb => hle b (List.mem_cons_of_mem a hb)
    simp only [List.map_cons, List.sum_cons] at h
    intro b hb
    rcases List.mem_cons.1 hb with rfl | hb
    · omega
    · exact ih (fun b hb => hle b (List.mem_cons_of_mem a hb)) (by omega) b hb

theorem marks_gap (h : Gap gap) : marks gap = 0 := by
  refine marks_eq_zero.2 fun b hb => ?_
  have hspace := h.spaces b hb
  simp only [isSpace, isBlank, Bool.or_eq_true, decide_eq_true_eq] at hspace
  rcases hspace with (((rfl | rfl) | rfl) | rfl) | rfl <;> rfl

theorem marks_host (h : Host host) : marks host = 0 := marks_eq_zero.2 fun b hb => (h.bytes b hb).2.1

theorem count_quote_of_marks {s : List UInt8} (h : marks s = 0) : s.count quote = 0 :=
  List.count_eq_zero.2 fun hmem => absurd (marks_eq_zero.1 h _ hmem) (by decide)

/-- A line has two marks besides those of its path and of its options, and both are quotes. -/
theorem marks_renderAll (hgap : Gap gap) (hhost : Host host) (l : List (List UInt8 × List UInt8)) :
    marks (renderAll gap host l) = (l.map fun e => marks e.1 + marks e.2 + 2).sum ∧
      (renderAll gap host l).count quote = (l.map fun e => e.1.count quote + e.2.count quote + 2).sum := by
  induction l with
  | nil => exact ⟨rfl, rfl⟩
  | cons e l ih =>
    have hcons : renderAll gap host (e :: l) = render gap host e ++ renderAll gap host l := rfl
    have hparts : render gap host e =
        [quote] ++ e.1 ++ [quote] ++ gap ++ host ++ [opening] ++ e.2 ++ [closing, newline] := by
      simp [render]
    have hfixed : marks [quote] = 1 ∧ marks [opening] = 0 ∧ marks [closing, newline] = 0 := by decide
    have hquotes : [quote].count quote = 1 ∧ [opening].count quote = 0 ∧ [closing, newline].count quote = 0 := by decide
    have hgap' := marks_gap hgap
    have hhost' := marks_host hhost
    refine ⟨?_, ?_⟩
    · rw [hcons, marks_append, ih.1, hparts]
      simp only [marks_append, hfixed, hgap', hhost', List.map_cons, List.sum_cons]
      omega
    · rw [hcons, List.count_append, ih.2, hparts]
      simp only [List.count_append, hquotes, count_quote_of_marks hgap', count_quote_of_marks hhost', List.map_cons, List.sum_cons]
      omega

/-- A path that is written is the first word of a line, and the client the second one. -/
theorem exists_line (hgap : Gap gap) (hhost : Host host) {l : List (List UInt8 × List UInt8)}
    (h : ∀ e ∈ l, quote ∉ e.1 ∧ quote ∉ e.2) {e : List UInt8 × List UInt8} (he : e ∈ l) :
    ∃ line, (e.1 :: (host ++ opening :: (e.2 ++ [closing]).takeWhile (isWhite · = false)) :: line) ∈
      lex .between (renderAll gap host l) := by
  induction l with
  | nil => cases he
  | cons e' l ih =>
    obtain ⟨path, options⟩ := e'
    obtain ⟨hpath, hoptions⟩ := h _ List.mem_cons_self
    obtain ⟨line, lines, hlex, -⟩ := lex_render hgap hhost hpath hoptions (renderAll gap host l)
    have hall : renderAll gap host ((path, options) :: l) = render gap host (path, options) ++ renderAll gap host l := rfl
    rw [hall, hlex]
    rcases List.mem_cons.1 he with rfl | he
    · exact ⟨line, List.mem_append_left _ List.mem_cons_self⟩
    · obtain ⟨line', hline'⟩ := ih (fun e he => h e (List.mem_cons_of_mem _ he)) he
      exact ⟨line', List.mem_append_right _ hline'⟩

/-- Every word behind the first one of a line is a client. -/
theorem parseClient_of_parseLines {lines : List (List (List UInt8))} {entries : List Entry} (h : parseLines lines = some entries)
    {path : List UInt8} {words : List (List UInt8)} (hline : path :: words ∈ lines) {word : List UInt8} (hword : word ∈ words) :
    ∃ client, parseClient (decode word) = some client := by
  induction lines generalizing entries with
  | nil => cases hline
  | cons line lines ih =>
    cases line with
    | nil => exact ih h ((List.mem_cons.1 hline).resolve_left (List.cons_ne_nil _ _))
    | cons path' words' =>
      obtain ⟨clients, hclients, others, hothers, -⟩ := parseLines_cons_eq_some.1 h
      rcases List.mem_cons.1 hline with heq | hline
      · obtain ⟨rfl, rfl⟩ := List.cons.inj heq
        obtain ⟨client, -, hclient⟩ := Correspond.exists_right hclients hword
        exact ⟨client, hclient⟩
      · exact ih hothers hline

theorem marks_entryOf (host : List UInt8) (e : List UInt8 × List UInt8) :
    (entryOf host e).marks = marks e.1 + marks e.2 := by
  simp [entryOf, Entry.marks, Client.marks]

/-- The marks of what is read back are those of what is written. -/
theorem marks_of_perm {l : List (List UInt8 × List UInt8)} {entries : List Entry} (h : entries.Perm (l.map (entryOf host))) :
    (entries.map Entry.marks).sum = (l.map fun e => marks e.1 + marks e.2).sum := by
  rw [(h.map Entry.marks).sum_eq, List.map_map]
  exact congrArg List.sum (List.map_congr_left fun e _ => marks_entryOf host e)

theorem sum_marks_decode_le (words : List (List UInt8)) :
    (words.map fun word => marks (decode word)).sum ≤ (words.map marks).sum :=
  List.sum_le_sum fun word _ => marks_decode_le word

/-- If the entries are those that were written, nothing that was written has a quote or goes on in the next line. -/
theorem unbroken_of_read (hgap : Gap gap) (hhost : Host host) {l : List (List UInt8 × List UInt8)} {entries : List Entry}
    (hread : linux (renderAll gap host l) = some entries) (hperm : entries.Perm (l.map (entryOf host))) :
    ∀ e ∈ l, (quote ∉ e.1 ∧ quote ∉ e.2) ∧ joinLines e.1 = e.1 ∧ joinLines e.2 = e.2 := by
  rw [linux, joinLines_renderAll hgap hhost] at hread
  have hentries := marks_parseLines_le hread
  rw [marks_of_perm hperm] at hentries
  have hwords := sum_marks_decode_le (lex .between (renderAll gap host (l.map fun e => (joinLines e.1, joinLines e.2)))).flatten
  have hlex := wordMarks_lex .between (renderAll gap host (l.map fun e => (joinLines e.1, joinLines e.2)))
  obtain ⟨hmarks, hquotes⟩ := marks_renderAll hgap hhost (l.map fun e => (joinLines e.1, joinLines e.2))
  rw [hmarks, hquotes, wordMarks, List.map_map, List.map_map] at hlex
  have hle : ∀ e ∈ l, marks (joinLines e.1) + marks (joinLines e.2) + 2 ≤
      (marks e.1 + marks e.2) + (e.1.count quote + e.2.count quote + 2) := fun e _ => by
    have hpath := marks_joinLines_le e.1
    have hoptions := marks_joinLines_le e.2
    omega
  have hsum : (l.map fun e => (marks e.1 + marks e.2) + (e.1.count quote + e.2.count quote + 2)).sum ≤
      (l.map fun e => marks (joinLines e.1) + marks (joinLines e.2) + 2).sum := by
    rw [List.sum_map_add]
    refine le_trans (Nat.add_le_add (hentries.trans hwords) (le_of_eq ?_)) hlex
    exact congrArg List.sum (List.map_congr_left fun e _ => by simp [count_quote_joinLines])
  intro e he
  have hone := le_of_sum_le hle hsum e he
  have hpath := marks_joinLines_le e.1
  have hoptions := marks_joinLines_le e.2
  refine ⟨⟨?_, ?_⟩, (joinLines_eq_or_marks_lt e.1).resolve_right ?_, (joinLines_eq_or_marks_lt e.2).resolve_right ?_⟩
  · exact List.count_eq_zero.1 (by omega)
  · exact List.count_eq_zero.1 (by omega)
  · omega
  · omega

/-- If they are, no word of the file has an escape. -/
theorem unescaped_of_read (hgap : Gap gap) (hhost : Host host) {l : List (List UInt8 × List UInt8)} {entries : List Entry}
    (hquotes : ∀ e ∈ l, quote ∉ e.1 ∧ quote ∉ e.2) (hread : parseLines (lex .between (renderAll gap host l)) = some entries)
    (hperm : entries.Perm (l.map (entryOf host))) :
    ∀ word ∈ (lex .between (renderAll gap host l)).flatten, hasEscape word = false := by
  have hentries := marks_parseLines_le hread
  rw [marks_of_perm hperm] at hentries
  have hlex := wordMarks_lex .between (renderAll gap host l)
  obtain ⟨hmarks, hcount⟩ := marks_renderAll hgap hhost l
  have htwo : (l.map fun e => e.1.count quote + e.2.count quote + 2) = l.map fun _ => 2 := List.map_congr_left fun e he => by
    rw [List.count_eq_zero.2 (hquotes e he).1, List.count_eq_zero.2 (hquotes e he).2]
  rw [hmarks, hcount, htwo, List.sum_map_add] at hlex
  have hsum : ((lex .between (renderAll gap host l)).flatten.map marks).sum ≤
      ((lex .between (renderAll gap host l)).flatten.map fun word => marks (decode word)).sum :=
    (Nat.add_le_add_iff_right.1 hlex).trans hentries
  intro word hword
  exact hasEscape_of_marks (le_of_sum_le (fun word _ => marks_decode_le word) hsum word hword)

/-- A client that is read has its list closed. -/
theorem closing_mem_of_parseClient {word : List UInt8} {client : Client} (h : parseClient word = some client)
    (hopening : opening ∈ word) : closing ∈ word := by
  rw [parseClient, if_pos hopening] at h
  dsimp only at h
  split at h
  · next hclose =>
    have hmem : closing ∈ (word.dropWhile (· ≠ opening)).tail.dropWhile (· ≠ closing) := by
      rw [hclose]
      exact List.mem_singleton_self _
    exact (List.dropWhile_suffix _).subset (List.mem_of_mem_tail ((List.dropWhile_suffix _).subset hmem))
  · cases h

theorem mem_of_mem_takeWhile {p : UInt8 → Bool} {b c : UInt8} (hb : p b = false) {s t : List UInt8}
    (h : c ∈ (s ++ b :: t).takeWhile p) : c ∈ s := by
  induction s with
  | nil => simp [hb] at h
  | cons d s ih =>
    rw [List.cons_append, List.takeWhile_cons] at h
    split at h
    · rcases List.mem_cons.1 h with rfl | h
      · exact List.mem_cons_self
      · exact List.mem_cons_of_mem d (ih h)
    · cases h

/-- What is read back, in whatever order, stands as it is meant. -/
theorem linux_renderAll_iff (hgap : Gap gap) (hhost : Host host) (l : List (List UInt8 × List UInt8)) :
    (∃ entries, linux (renderAll gap host l) = some entries ∧ entries.Perm (l.map (entryOf host))) ↔
      ∀ e ∈ l, Quotable e.1 ∧ Plain e.2 := by
  refine ⟨?_, fun h => ⟨_, linux_renderAll hgap hhost h, .refl _⟩⟩
  rintro ⟨entries, hread, hperm⟩ e he
  have hkept := unbroken_of_read hgap hhost hread hperm
  have hquotes : ∀ e ∈ l, quote ∉ e.1 ∧ quote ∉ e.2 := fun e he => (hkept e he).1
  have hjoin : l.map (fun e => (joinLines e.1, joinLines e.2)) = l :=
    (List.map_congr_left fun e he => by rw [(hkept e he).2.1, (hkept e he).2.2, id_eq]).trans (List.map_id l)
  rw [linux, joinLines_renderAll hgap hhost, hjoin] at hread
  have hunescaped := unescaped_of_read hgap hhost hquotes hread hperm
  obtain ⟨line, hline⟩ := exists_line hgap hhost hquotes he
  have hunclosed : closing ∉ e.2 := by
    have hentry : entryOf host e ∈ entries := hperm.mem_iff.2 (List.mem_map_of_mem he)
    exact closing_notMem hread hentry (List.mem_singleton.2 rfl) rfl
  have hword : hasEscape (host ++ opening :: (e.2 ++ [closing]).takeWhile (isWhite · = false)) = false :=
    hunescaped _ (List.mem_flatten.2 ⟨_, hline, List.mem_cons_of_mem _ List.mem_cons_self⟩)
  -- the word of the client ends where the options have white space, and then its list is not closed
  have hunspaced : ∀ b ∈ e.2, isWhite b = false := by
    intro b hb
    by_contra hwhite
    obtain ⟨s, t, hsplit⟩ := List.append_of_mem hb
    obtain ⟨client, hclient⟩ := parseClient_of_parseLines hread hline List.mem_cons_self
    rw [decode_of_hasEscape hword] at hclient
    rcases List.mem_append.1 (closing_mem_of_parseClient hclient (by simp)) with hmem | hmem
    · exact (hhost.bytes _ hmem).2.2.2 rfl
    · rcases List.mem_cons.1 hmem with heq | hmem
      · exact absurd heq (by decide)
      · rw [hsplit, List.append_assoc, List.cons_append] at hmem
        refine hunclosed ?_
        rw [hsplit]
        exact List.mem_append_left _ (mem_of_mem_takeWhile (by simpa using hwhite) hmem)
  rw [takeWhile_options hunspaced, hasEscape_client hhost] at hword
  refine ⟨⟨(hquotes e he).1, ?_, joinLines_eq_self_iff.1 (hkept e he).2.1⟩, hunspaced, (hquotes e he).2, hword, hunclosed⟩
  exact hunescaped _ (List.mem_flatten.2 ⟨_, hline, List.mem_cons_self⟩)

end Read

end Exports
