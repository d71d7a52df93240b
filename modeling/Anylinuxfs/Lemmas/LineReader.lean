import Anylinuxfs.Lemmas.Text
import Anylinuxfs.Lemmas.Utf8
import Anylinuxfs.LineReader

/-!
# Reading lines

What one turn of the loop does to a chunk of text, what one call does to a stream of texts, and that a call without an error has
read nothing but texts.
-/

namespace Anylinuxfs

/-! ## Texts and bytes -/

/-- Exactly the bytes of a text are read as this text. -/
theorem fromUtf8_eq_some {b : Bytes} {s : List Char} : fromUtf8 b = some s ↔ b = utf8 s := by
  unfold fromUtf8
  constructor
  · intro h
    obtain ⟨a, ha, rfl⟩ := Option.map_eq_some_iff.1 h
    have hb : (utf8 a.toList).toByteArray = b.toByteArray := by
      have hsome : b.toByteArray.utf8Decode?.isSome := by rw [ha]; rfl
      have hget : b.toByteArray.utf8Decode?.get hsome = a := Option.get_of_eq_some hsome ha
      rw [← hget]
      exact ByteArray.utf8Encode_get_utf8Decode?
    simpa using (congrArg (fun b => b.data.toList) hb).symm
  · rintro rfl
    have h : (utf8 s).toByteArray = s.utf8Encode := rfl
    rw [h, List.utf8Decode?_utf8Encode]
    rfl

/-- A newline is in the bytes of a text where it is in the text. -/
theorem newline_mem_utf8 {s : List Char} : newline ∈ utf8 s ↔ '\n' ∈ s := mem_utf8_iff_of_ascii (a := '\n') (by decide)

/-! ## Lines -/

/-- The first line of a text: up to its first newline. -/
def firstLine (s : List Char) : List Char := if '\n' ∈ s then s.takeWhile (· ≠ '\n') ++ ['\n'] else s

/-- What is behind the first line. -/
def restLines (s : List Char) : List Char := s.drop (firstLine s).length

theorem firstLine_of_notMem {s : List Char} (h : '\n' ∉ s) : firstLine s = s ∧ restLines s = [] := by
  have hfirst : firstLine s = s := if_neg h
  exact ⟨hfirst, by rw [restLines, hfirst, List.drop_length]⟩

theorem firstLine_append {a b : List Char} (ha : '\n' ∉ a) :
    firstLine (a ++ '\n' :: b) = a ++ ['\n'] ∧ restLines (a ++ '\n' :: b) = b := by
  have hmem : '\n' ∈ a ++ '\n' :: b := by simp
  have hfirst : firstLine (a ++ '\n' :: b) = a ++ ['\n'] := by
    rw [firstLine, if_pos hmem, takeWhile_append_cons ha]
  refine ⟨hfirst, ?_⟩
  rw [restLines, hfirst, List.append_cons a '\n' b, List.drop_left]

/-- The lines of a text are its first line and those of the rest. -/
theorem linesOf_eq {s : List Char} (hs : s ≠ []) : linesOf s = firstLine s :: linesOf (restLines s) := by
  have hline : ∀ a b : List Char, '\n' ∉ a → linesOf (a ++ '\n' :: b) = (a ++ ['\n']) :: linesOf b := by
    intro a b ha
    induction a with
    | nil => rw [List.nil_append, linesOf, if_pos rfl, List.nil_append]
    | cons c a ih =>
      rw [List.mem_cons, not_or] at ha
      rw [List.cons_append, linesOf, if_neg (Ne.symm ha.1), ih ha.2, List.cons_append]
  have hlast : ∀ a : List Char, '\n' ∉ a → a ≠ [] → linesOf a = [a] := by
    intro a ha hne
    induction a with
    | nil => exact absurd rfl hne
    | cons c a ih =>
      rw [List.mem_cons, not_or] at ha
      rw [linesOf, if_neg (Ne.symm ha.1)]
      cases a with
      | nil => rfl
      | cons d a => rw [ih ha.2 (List.cons_ne_nil d a)]
  by_cases h : '\n' ∈ s
  · obtain ⟨a, b, rfl, ha⟩ := List.eq_append_cons_of_mem h
    rw [hline a b ha, (firstLine_append ha).1, (firstLine_append ha).2]
  · rw [hlast s h hs, (firstLine_of_notMem h).1, (firstLine_of_notMem h).2]
    rfl

theorem flatten_linesOf (s : List Char) : (linesOf s).flatten = s := by
  induction s with
  | nil => rfl
  | cons c s ih =>
    rw [linesOf]
    split
    · rw [List.flatten_cons, ih, List.singleton_append]
    · split
      · next h =>
        rw [h] at ih
        rw [← ih]
        rfl
      · next line lines h =>
        rw [h, List.flatten_cons] at ih
        rw [List.flatten_cons, List.cons_append, ih]

theorem expectedLine_zero (s : List Char) : expectedLine s 0 = firstLine s := by
  cases s with
  | nil => rfl
  | cons c s =>
    rw [expectedLine, linesOf_eq (List.cons_ne_nil c s)]
    rfl

theorem expectedLine_succ (s : List Char) (i : Nat) : expectedLine s (i + 1) = expectedLine (restLines s) i := by
  cases s with
  | nil => rfl
  | cons c s =>
    rw [expectedLine, linesOf_eq (List.cons_ne_nil c s)]
    rfl

/-! ## The pieces of a buffer -/

theorem firstPiece_of_notMem {b : Bytes} (h : newline ∉ b) : firstPiece b = b := if_neg h

theorem firstPiece_append {a b : Bytes} (ha : newline ∉ a) : firstPiece (a ++ newline :: b) = a ++ [newline] := by
  have hmem : newline ∈ a ++ newline :: b := by simp
  rw [firstPiece, if_pos hmem, takeWhile_append_cons ha]

/-- The first piece of a text is its first line. -/
theorem firstPiece_utf8 (s : List Char) : firstPiece (utf8 s) = utf8 (firstLine s) := by
  by_cases h : '\n' ∈ s
  · obtain ⟨a, b, rfl, ha⟩ := List.eq_append_cons_of_mem h
    have hnl : utf8 ['\n'] = [newline] := by decide
    have hcons : utf8 ('\n' :: b) = newline :: utf8 b := utf8_append ['\n'] b
    rw [(firstLine_append ha).1, utf8_append, utf8_append, hcons, hnl,
      firstPiece_append fun hmem => ha (newline_mem_utf8.1 hmem)]
  · rw [(firstLine_of_notMem h).1, firstPiece_of_notMem fun hmem => h (newline_mem_utf8.1 hmem)]

/-- A piece is the beginning of its buffer, and not empty. -/
theorem firstPiece_append_drop {b : Bytes} : firstPiece b ++ b.drop (firstPiece b).length = b := by
  by_cases h : newline ∈ b
  · obtain ⟨x, y, rfl, hx⟩ := List.eq_append_cons_of_mem h
    rw [firstPiece_append hx, List.append_cons x newline y, List.drop_left]
  · rw [firstPiece_of_notMem h, List.drop_length, List.append_nil]

theorem firstPiece_ne_nil {b : Bytes} (hb : b ≠ []) : firstPiece b ≠ [] := by
  unfold firstPiece
  split
  · simp
  · exact hb

/-! ## The state in a line -/

/-- What the beginning of a line has in common with the lines of messages: nothing is printed yet. -/
def hidden (line : List Char) : Bool := controlMarker.isPrefixOf line || line.isPrefixOf controlMarker

/-- The state after the beginning of a line. -/
def stateOf (line : List Char) : LineState where
  suppressCurrentLine := controlMarker.isPrefixOf line
  pendingOutput := if controlMarker.isPrefixOf line = false ∧ line.isPrefixOf controlMarker = true then line else []
  firstChunk := hidden line

/-- What is on the console of the beginning of a line. -/
def shown (enabled : Bool) (guestPrefix : Prefix) (line : List Char) : List Char :=
  if enabled = false ∨ hidden line = true then [] else prefixText (some guestPrefix) ++ line

/-- What is printed, on the console. -/
def console (enabled : Bool) (printed : List Printed) : List Char := printed.flatMap (Printed.console enabled)

theorem console_append (enabled : Bool) (a b : List Printed) : console enabled (a ++ b) = console enabled a ++ console enabled b :=
  List.flatMap_append

theorem prefixText_none : prefixText none = [] := rfl

section

variable (guestPrefix : Prefix)

/-- A chunk leads from the state of a line to that of the longer line, and prints what is shown of it for the first time. -/
theorem absorb_stateOf (line chunk : List Char) (hchunk : chunk ≠ []) :
    ∃ out, (stateOf line).absorb guestPrefix (line ++ chunk) chunk = (stateOf (line ++ chunk), out) ∧
      ∀ enabled, shown enabled guestPrefix line ++ console enabled out = shown enabled guestPrefix (line ++ chunk) := by
  have hchunk' : line ++ chunk ≠ line := fun h => hchunk (List.append_right_eq_self.1 h)
  unfold LineState.absorb
  by_cases hsuppressed : controlMarker <+: line
  · -- the line is that of a message already
    have hline : controlMarker.isPrefixOf line = true := List.isPrefixOf_iff_prefix.2 hsuppressed
    have hlonger : controlMarker.isPrefixOf (line ++ chunk) = true :=
      List.isPrefixOf_iff_prefix.2 (hsuppressed.trans (List.prefix_append line chunk))
    refine ⟨[], ?_, fun enabled => ?_⟩
    · simp [stateOf, hidden, hline, hlonger]
    · simp [shown, hidden, console, hline, hlonger]
  · have hline : controlMarker.isPrefixOf line = false := Bool.eq_false_iff.2 fun h => hsuppressed (List.isPrefixOf_iff_prefix.1 h)
    by_cases hmarker : controlMarker <+: line ++ chunk
    · -- it becomes one with this chunk: what came before was a beginning of the marker
      have hlonger : controlMarker.isPrefixOf (line ++ chunk) = true := List.isPrefixOf_iff_prefix.2 hmarker
      have hbegins : line.isPrefixOf controlMarker = true := by
        rcases List.prefix_or_prefix_of_prefix hmarker (List.prefix_append line chunk) with h | h
        · exact absurd h hsuppressed
        · exact List.isPrefixOf_iff_prefix.2 h
      refine ⟨[], ?_, fun enabled => ?_⟩
      · simp [stateOf, hidden, hline, hlonger, hbegins]
      · simp [shown, hidden, console, hlonger, hbegins]
    · have hlonger : controlMarker.isPrefixOf (line ++ chunk) = false :=
        Bool.eq_false_iff.2 fun h => hmarker (List.isPrefixOf_iff_prefix.1 h)
      by_cases hbegins : line ++ chunk <+: controlMarker
      · -- it is still the beginning of the marker
        have hbegins' : (line ++ chunk).isPrefixOf controlMarker = true := List.isPrefixOf_iff_prefix.2 hbegins
        have hbefore : line.isPrefixOf controlMarker = true :=
          List.isPrefixOf_iff_prefix.2 ((List.prefix_append line chunk).trans hbegins)
        refine ⟨[], ?_, fun enabled => ?_⟩
        · simp [stateOf, hidden, hline, hlonger, hbegins', hbefore]
        · simp [shown, hidden, console, hbegins', hbefore]
      · -- it is no line of a message
        have hbegins' : (line ++ chunk).isPrefixOf controlMarker = false :=
          Bool.eq_false_iff.2 fun h => hbegins (List.isPrefixOf_iff_prefix.1 h)
        cases hbefore : line.isPrefixOf controlMarker with
        | false =>
          refine ⟨[.text none chunk], ?_, fun enabled => ?_⟩
          · simp [stateOf, hidden, hline, hlonger, hbegins', hbefore, LineState.release, selectPrefix]
          · cases enabled <;> simp [shown, hidden, console, Printed.console, prefixText_none, hline, hlonger, hbegins', hbefore]
        | true =>
          by_cases hnil : line = []
          · subst hnil
            rw [List.nil_append] at hlonger hbegins'
            refine ⟨[.text (some guestPrefix) chunk], ?_, fun enabled => ?_⟩
            · simp [stateOf, hidden, hline, hlonger, hbegins', LineState.release, selectPrefix]
            · cases enabled <;> simp [shown, hidden, console, Printed.console, hlonger, hbegins']
          · refine ⟨[.text (some guestPrefix) line, .text none chunk], ?_, fun enabled => ?_⟩
            · simp [stateOf, hidden, hline, hlonger, hbegins', hbefore, LineState.release, selectPrefix, hnil]
            · cases enabled <;> simp [shown, hidden, console, Printed.console, prefixText_none, hline, hlonger, hbegins', hbefore]

/-- At the end of the stream, what was held back of the last line is printed, unless it is a message. -/
theorem release_stateOf {line : List Char} (hline : '\n' ∉ line) :
    ((stateOf line).release guestPrefix).1.pendingOutput = [] ∧
      ∀ enabled, shown enabled guestPrefix line ++ console enabled ((stateOf line).release guestPrefix).2 =
        lineConsole enabled guestPrefix line := by
  unfold lineConsole LineState.release
  simp only [if_neg hline, List.append_nil]
  cases hmarker : controlMarker.isPrefixOf line with
  | true => simp [stateOf, shown, hidden, console, hmarker]
  | false =>
    cases hbegins : line.isPrefixOf controlMarker with
    | true =>
      by_cases hnil : line = []
      · simp [stateOf, shown, hidden, console, hnil]
      · refine ⟨by simp [stateOf, hmarker, hbegins, hnil], fun enabled => ?_⟩
        cases enabled <;>
          simp [stateOf, shown, hidden, console, Printed.console, selectPrefix, hmarker, hbegins, hnil]
    | false =>
      have hnil : line ≠ [] := by
        rintro rfl
        cases hbegins
      simp [stateOf, shown, hidden, console, hmarker, hbegins, hnil]

/-- At a newline nothing is held back. -/
theorem endLine_stateOf {line : List Char} (hline : '\n' ∈ line) (enabled : Bool) :
    shown enabled guestPrefix line ++ console enabled ((stateOf line).endLine guestPrefix ++ [.carriageReturn]) =
      lineConsole enabled guestPrefix line := by
  have hbegins : line.isPrefixOf controlMarker = false := by
    refine Bool.eq_false_iff.2 fun h => ?_
    have hmem : '\n' ∈ controlMarker := (List.isPrefixOf_iff_prefix.1 h).subset hline
    exact absurd hmem (by decide)
  have hnil : line ≠ [] := List.ne_nil_of_mem hline
  unfold lineConsole LineState.endLine LineState.release
  rw [if_pos hline]
  cases hmarker : controlMarker.isPrefixOf line <;>
    simp [stateOf, shown, hidden, console, Printed.console, hmarker, hbegins, hnil]

/-! ## One call -/

/-- The reader is to read a text: its reads end between characters, and it is at the beginning of a line or at the end. -/
structure LineReader.Represents (r : LineReader) (s : List Char) : Prop where
  guestPrefix : r.guestPrefix = guestPrefix
  state : r.state = {} ∨ r.input = [] ∧ r.state.pendingOutput = []
  input : ∃ pieces : List (List Char), r.input = pieces.map utf8 ∧ (∀ p ∈ pieces, p ≠ []) ∧ pieces.flatten = s

variable {guestPrefix}

theorem firstLine_append_of_notMem {s : List Char} (t : List Char) (hs : '\n' ∉ s) :
    firstLine (s ++ t) = s ++ firstLine t ∧ restLines (s ++ t) = restLines t := by
  by_cases h : '\n' ∈ t
  · obtain ⟨a, b, rfl, ha⟩ := List.eq_append_cons_of_mem h
    have hsa : '\n' ∉ s ++ a := by simp [hs, ha]
    rw [← List.append_assoc, (firstLine_append hsa).1, (firstLine_append hsa).2, (firstLine_append ha).1, (firstLine_append ha).2,
      List.append_assoc]
    exact ⟨rfl, rfl⟩
  · have hst : '\n' ∉ s ++ t := by simp [hs, h]
    rw [(firstLine_of_notMem hst).1, (firstLine_of_notMem hst).2, (firstLine_of_notMem h).1, (firstLine_of_notMem h).2]
    exact ⟨rfl, rfl⟩

/-- A turn of the loop at a read. -/
theorem readLineLoop_cons {st : LineState} {line : List Char} {totalRead : Nat} {printed : List Printed} {buffer : Bytes}
    {reads : List Bytes} (hbuffer : buffer ≠ []) : readLineLoop guestPrefix st line totalRead printed (buffer :: reads) =
      match fromUtf8 (firstPiece buffer) with
      | none => (⟨none, printed⟩, ⟨reads, buffer, st, guestPrefix⟩)
      | some chunk =>
        if newline ∈ buffer then
          (⟨some (line ++ chunk, totalRead + (firstPiece buffer).length),
            printed ++ (st.absorb guestPrefix (line ++ chunk) chunk).2 ++
              (st.absorb guestPrefix (line ++ chunk) chunk).1.endLine guestPrefix ++ [.carriageReturn]⟩,
            ⟨reads, buffer.drop (firstPiece buffer).length, {}, guestPrefix⟩)
        else readLineLoop guestPrefix (st.absorb guestPrefix (line ++ chunk) chunk).1 (line ++ chunk)
          (totalRead + (firstPiece buffer).length) (printed ++ (st.absorb guestPrefix (line ++ chunk) chunk).2) reads := by
  obtain ⟨b, bs, rfl⟩ := List.exists_cons_of_ne_nil hbuffer
  rfl

/-- The loop reads texts up to the end of the line. -/
theorem readLineLoop_texts {pieces : List (List Char)} (hne : ∀ p ∈ pieces, p ≠ []) {line : List Char} (hline : '\n' ∉ line)
    (totalRead : Nat) {printed : List Printed} (hprinted : ∀ enabled, console enabled printed = shown enabled guestPrefix line) :
    ∃ printed' r, readLineLoop guestPrefix (stateOf line) line totalRead printed (pieces.map utf8) =
        (⟨some (line ++ firstLine pieces.flatten, totalRead + (utf8 (firstLine pieces.flatten)).length), printed'⟩, r) ∧
      (∀ enabled, console enabled printed' = lineConsole enabled guestPrefix (line ++ firstLine pieces.flatten)) ∧
      r.Represents guestPrefix (restLines pieces.flatten) := by
  induction pieces generalizing line totalRead printed with
  | nil =>
    obtain ⟨hpending, hconsole⟩ := release_stateOf guestPrefix hline
    have hfirst : firstLine ([] : List (List Char)).flatten = [] := rfl
    rw [hfirst, List.append_nil]
    refine ⟨_, _, rfl, fun enabled => ?_, ⟨rfl, .inr ⟨rfl, hpending⟩, [], rfl, by simp, rfl⟩⟩
    rw [console_append, hprinted, hconsole]
  | cons p pieces ih =>
    have hp : p ≠ [] := hne p List.mem_cons_self
    have hpieces : ∀ q ∈ pieces, q ≠ [] := fun q hq => hne q (List.mem_cons_of_mem p hq)
    have hbuffer : utf8 p ≠ [] := fun h => hp (utf8_eq_nil h)
    have hchunk : firstLine p ≠ [] := by
      intro h
      have := firstPiece_ne_nil hbuffer
      rw [firstPiece_utf8, h] at this
      exact this rfl
    obtain ⟨out, habsorb, hout⟩ := absorb_stateOf guestPrefix line (firstLine p) hchunk
    have hprinted' : ∀ enabled, console enabled (printed ++ out) = shown enabled guestPrefix (line ++ firstLine p) := fun enabled => by
      rw [console_append, hprinted, hout]
    rw [List.map_cons, readLineLoop_cons hbuffer, firstPiece_utf8, fromUtf8_eq_some.2 rfl, List.flatten_cons]
    simp only [habsorb, newline_mem_utf8]
    by_cases hnl : '\n' ∈ p
    · obtain ⟨a, b, rfl, ha⟩ := List.eq_append_cons_of_mem hnl
      have hrest : a ++ '\n' :: b ++ pieces.flatten = a ++ '\n' :: (b ++ pieces.flatten) := List.append_assoc _ _ _
      have hfirst := (firstLine_append (b := b) ha).1
      obtain ⟨hfirst', hrest'⟩ := firstLine_append (b := b ++ pieces.flatten) ha
      rw [if_pos hnl, hrest, hfirst, hfirst', hrest']
      rw [hfirst] at hprinted'
      have hdrop : (utf8 (a ++ '\n' :: b)).drop (utf8 (a ++ ['\n'])).length = utf8 b := by
        rw [List.append_cons a '\n' b, utf8_append (a ++ ['\n']) b, List.drop_left]
      rw [hdrop]
      refine ⟨_, ⟨pieces.map utf8, utf8 b, {}, guestPrefix⟩, rfl, fun enabled => ?_, ⟨rfl, .inl rfl, ?_⟩⟩
      · rw [List.append_assoc, console_append, hprinted', endLine_stateOf guestPrefix (by simp)]
      · by_cases hb : b = []
        · exact ⟨pieces, by rw [LineReader.input, hb]; rfl, hpieces, by rw [hb, List.nil_append]⟩
        · have hb' : utf8 b ≠ [] := fun h => hb (utf8_eq_nil h)
          exact ⟨b :: pieces, if_neg hb', List.forall_mem_cons.2 ⟨hb, hpieces⟩, rfl⟩
    · rw [if_neg hnl, (firstLine_append_of_notMem _ hnl).1, (firstLine_append_of_notMem _ hnl).2, (firstLine_of_notMem hnl).1]
      rw [(firstLine_of_notMem hnl).1] at hprinted'
      have hline' : '\n' ∉ line ++ p := by simp [hline, hnl]
      obtain ⟨printed', r, hloop, hconsole, hr⟩ := ih hpieces hline' (totalRead + (utf8 p).length) hprinted'
      rw [List.append_assoc, Nat.add_assoc, ← List.length_append, ← utf8_append] at hloop
      rw [List.append_assoc] at hconsole
      exact ⟨printed', r, hloop, hconsole, hr⟩

/-- A call returns the first line, prints what should be on the console for it, and leaves the rest. -/
theorem LineReader.Represents.readLine {r : LineReader} {s : List Char} (h : r.Represents guestPrefix s) :
    ∃ printed r', r.readLine = (⟨some (firstLine s, (utf8 (firstLine s)).length), printed⟩, r') ∧
      (∀ enabled, console enabled printed = lineConsole enabled guestPrefix (firstLine s)) ∧
      r'.Represents guestPrefix (restLines s) := by
  obtain ⟨rfl, hstate, pieces, hinput, hne, rfl⟩ := h
  unfold LineReader.readLine
  rcases hstate with hstate | ⟨hnil, hpending⟩
  · have hstart : r.state = stateOf [] := hstate
    have hprinted : ∀ enabled, console enabled [] = shown enabled r.guestPrefix [] := fun enabled => by
      cases enabled <;> rfl
    have hline : '\n' ∉ ([] : List Char) := List.not_mem_nil
    obtain ⟨printed, r', hloop, hconsole, hr⟩ := readLineLoop_texts hne hline 0 hprinted
    rw [List.nil_append, Nat.zero_add] at hloop
    rw [hinput, hstart]
    exact ⟨printed, r', hloop, hconsole, hr⟩
  · have hpieces : pieces = [] := List.map_eq_nil_iff.1 (hinput.symm.trans hnil)
    have hrelease : r.state.release r.guestPrefix = (r.state, []) := if_pos hpending
    subst hpieces
    rw [hnil, readLineLoop, hrelease]
    exact ⟨[], _, rfl, fun enabled => by cases enabled <;> rfl, ⟨rfl, .inr ⟨rfl, hpending⟩, [], rfl, by simp, rfl⟩⟩

/-- Successive calls return the lines of the text and print what should be on the console for them. -/
theorem LineReader.Represents.calls {r : LineReader} {s : List Char} (h : r.Represents guestPrefix s) (n : Nat) :
    (r.calls n).map ReadCall.result =
        (List.range n).map (fun i => some (expectedLine s i, (utf8 (expectedLine s i)).length)) ∧
      ∀ enabled, (r.calls n).map (fun call => console enabled call.printed) =
        (List.range n).map fun i => lineConsole enabled guestPrefix (expectedLine s i) := by
  induction n generalizing r s with
  | zero => exact ⟨rfl, fun _ => rfl⟩
  | succ n ih =>
    obtain ⟨printed, r', hcall, hconsole, hr⟩ := h.readLine
    obtain ⟨hresults, hprinted⟩ := ih hr
    simp [LineReader.calls, hcall, List.range_succ_eq_map, hresults, hprinted, hconsole, expectedLine_zero, expectedLine_succ,
      Function.comp_def]

/-- The reads of a new reader. -/
theorem represents_new {pieces : List (List Char)} (hne : ∀ p ∈ pieces, p ≠ []) :
    (LineReader.new (pieces.map utf8) guestPrefix).Represents guestPrefix pieces.flatten :=
  ⟨rfl, .inl rfl, pieces, rfl, hne, rfl⟩

/-! ## Calls without errors -/

/-- A call without an error has read a text, and less is left to read. -/
theorem readLineLoop_isText {st : LineState} {line : List Char} {totalRead : Nat} {printed : List Printed} {reads : List Bytes}
    (hne : ∀ b ∈ reads, b ≠ []) {call : ReadCall} {r : LineReader}
    (h : readLineLoop guestPrefix st line totalRead printed reads = (call, r)) (hok : call.result ≠ none) :
    (∀ b ∈ r.input, b ≠ []) ∧ (reads ≠ [] → r.input.flatten.length < reads.flatten.length) ∧
      (reads = [] → r.input = []) ∧ ((∀ b ∈ r.input, IsText b) → ∀ b ∈ reads, IsText b) := by
  induction reads generalizing st line totalRead printed with
  | nil =>
    have hinput : r.input = [] := by
      rw [readLineLoop] at h
      rw [← (Prod.mk.inj h).2]
      rfl
    rw [hinput]
    simp
  | cons buffer reads ih =>
    have hbuffer : buffer ≠ [] := hne buffer List.mem_cons_self
    have hreads : ∀ b ∈ reads, b ≠ [] := fun b hb => hne b (List.mem_cons_of_mem buffer hb)
    have hpos := List.length_pos_iff.2 (firstPiece_ne_nil hbuffer)
    have hdrop : firstPiece buffer ++ buffer.drop (firstPiece buffer).length = buffer := firstPiece_append_drop
    rw [readLineLoop_cons hbuffer] at h
    cases hchunk : fromUtf8 (firstPiece buffer) with
    | none =>
      rw [hchunk] at h
      obtain ⟨rfl, -⟩ := Prod.mk.inj h
      exact absurd rfl hok
    | some chunk =>
      have htext := fromUtf8_eq_some.1 hchunk
      simp only [hchunk] at h
      by_cases hnl : newline ∈ buffer
      · rw [if_pos hnl] at h
        obtain ⟨-, rfl⟩ := Prod.mk.inj h
        obtain ⟨rest, hrest⟩ : ∃ rest, buffer.drop (firstPiece buffer).length = rest := ⟨_, rfl⟩
        rw [hrest] at hdrop ⊢
        have hlen := congrArg List.length hdrop
        rw [List.length_append] at hlen
        by_cases hnil : rest = []
        · have hinput : LineReader.input ⟨reads, rest, {}, guestPrefix⟩ = reads := if_pos hnil
          have hall : firstPiece buffer = buffer := by rw [hnil, List.append_nil] at hdrop; exact hdrop
          rw [hinput, List.flatten_cons, List.length_append]
          refine ⟨hreads, fun _ => by omega, nofun, fun htexts => List.forall_mem_cons.2 ⟨⟨chunk, ?_⟩, htexts⟩⟩
          rw [← htext, hall]
        · have hinput : LineReader.input ⟨reads, rest, {}, guestPrefix⟩ = rest :: reads := if_neg hnil
          rw [hinput, List.flatten_cons, List.flatten_cons, List.length_append, List.length_append]
          refine ⟨List.forall_mem_cons.2 ⟨hnil, hreads⟩, fun _ => by omega, nofun, fun htexts => ?_⟩
          obtain ⟨⟨t, ht⟩, htexts⟩ := List.forall_mem_cons.1 htexts
          refine List.forall_mem_cons.2 ⟨⟨chunk ++ t, ?_⟩, htexts⟩
          rw [utf8_append, ← htext, ← ht, hdrop]
      · rw [if_neg hnl] at h
        obtain ⟨hne', hless, hnil, htexts⟩ := ih hreads h
        have hall := firstPiece_of_notMem hnl
        refine ⟨hne', fun _ => ?_, nofun, fun hinput => List.forall_mem_cons.2 ⟨⟨chunk, ?_⟩, htexts hinput⟩⟩
        · rw [List.flatten_cons, List.length_append]
          rw [hall] at hpos
          cases reads with
          | nil =>
            rw [hnil rfl]
            exact Nat.lt_of_lt_of_le hpos (Nat.le_add_right _ _)
          | cons b bs =>
            have := hless (List.cons_ne_nil b bs)
            omega
        · rw [← htext, hall]

/-- Where no call returns an error, every read is a text. -/
theorem isText_of_noError {r : LineReader} (hne : ∀ b ∈ r.input, b ≠ [])
    (h : ∀ n, ∀ call ∈ r.calls n, call.result ≠ none) : ∀ b ∈ r.input, IsText b := by
  obtain ⟨k, hk⟩ : ∃ k, r.input.flatten.length = k := ⟨_, rfl⟩
  induction k using Nat.strongRecOn generalizing r with
  | ind k ih =>
    obtain ⟨⟨call, r'⟩, hcall⟩ : ∃ p, r.readLine = p := ⟨_, rfl⟩
    have hfirst : call.result ≠ none := h 1 call (by simp [LineReader.calls, hcall])
    obtain ⟨hne', hless, -, htexts⟩ := readLineLoop_isText hne hcall hfirst
    by_cases hnil : r.input = []
    · rw [hnil]
      simp
    · have hrest : ∀ n, ∀ c ∈ r'.calls n, c.result ≠ none := fun n c hc =>
        h (n + 1) c (by rw [LineReader.calls, hcall]; exact List.mem_cons_of_mem call hc)
      exact htexts (ih _ (hk ▸ hless hnil) hne' hrest rfl)

end

end Anylinuxfs
