import Anylinuxfs.Lib.Shell

/-!
# Words without quotes

A text that a program puts into a script without quotes comes out as one word, unchanged, exactly when each of its bytes means
itself there and the word, as a pattern, finds no other path (`wordsIn_eq_self_iff` for a script of one word, `wordsIn_middle_iff` for
a word with a last one behind it): nothing that the reader does but adding the byte to the word leaves all bytes in place.
-/

namespace Shell

/-- The byte means itself inside a word outside of quotes, before the byte `behind`. -/
def bareByte (c : UInt8) (behind : Option UInt8) : Bool :=
  c != Byte.nul && c != Byte.space && c != Byte.tab && c != Byte.dquote && c != Byte.squote && !active c &&
    (c != Byte.backslash || behind.isNone) && (c != Byte.dollar || !behind.any startsBareExpansion)

/-- Every byte of the text means itself inside a word outside of quotes, before the byte `behind`. -/
def bareBefore (behind : Option UInt8) : Bytes → Bool
  | [] => true
  | c :: rest => bareByte c (rest.head?.or behind) && bareBefore behind rest

section

variable {c : UInt8} {behind : Option UInt8} {w : Word} {s t pre rest : Bytes} {ws : List Word} {stays : Word → Bool}

theorem act_eq_emit_iff : act .plain true c behind = .emit .plain ↔ bareByte c behind = true := by
  have hback : active Byte.backslash = false := by decide
  have hdollar : active Byte.dollar = false := by decide
  unfold act bareByte
  by_cases hn : c = Byte.nul
  · simp [hn]
  rw [if_neg hn]
  dsimp only
  repeat' split
  case isTrue h => rcases h with rfl | rfl <;> simp
  all_goals simp_all [← Option.isSome_iff_ne_none]

theorem bareByte_of_inert (h : inert c = true) : bareByte c behind = true :=
  act_eq_emit_iff.1 (act_of_inert h true behind)

/-- Bytes that mean themselves wherever they stand. -/
theorem bareBefore_of_inert (h : ∀ c ∈ s, inert c = true) : bareBefore behind s = true := by
  induction s with
  | nil => rfl
  | cons c s ih =>
    rw [bareBefore, bareByte_of_inert (h c List.mem_cons_self), ih fun c' hc' => h c' (List.mem_cons_of_mem c hc')]
    rfl

theorem bareBefore_append (behind : Option UInt8) (s t : Bytes) :
    bareBefore behind (s ++ t) = (bareBefore (t.head?.or behind) s && bareBefore behind t) := by
  induction s with
  | nil => rfl
  | cons c s ih =>
    have hhead : (s ++ t).head?.or behind = s.head?.or (t.head?.or behind) := by cases s <;> rfl
    rw [List.cons_append, bareBefore, bareBefore, ih, hhead, Bool.and_assoc]

theorem bareByte_of_mem (h : bareBefore behind s = true) (hc : c ∈ s) : ∃ b, bareByte c b = true := by
  induction s with
  | nil => cases hc
  | cons d s ih =>
    rw [bareBefore, Bool.and_eq_true] at h
    rcases List.mem_cons.1 hc with rfl | hc
    · exact ⟨_, h.1⟩
    · exact ih h.2 hc

/-- The bytes behind a byte of a text that is followed by another one. -/
theorem head?_append_eq_or (s rest : Bytes) : (s ++ rest).head? = s.head?.or rest.head? := by
  cases s <;> rfl

/-- A text that means itself is added to the word. -/
theorem wordsFrom_bare (h : bareBefore rest.head? s = true) (w : Word) :
    wordsFrom .plain (some w) (s ++ rest) = wordsFrom .plain (some (w ++ bare s)) rest := by
  induction s generalizing w with
  | nil =>
    have hnil : w ++ bare [] = w := List.append_nil w
    rw [List.nil_append, hnil]
  | cons c s ih =>
    rw [bareBefore, Bool.and_eq_true, ← head?_append_eq_or] at h
    have ha : act .plain (some w).isSome c (s ++ rest).head? = .emit .plain := act_eq_emit_iff.2 h.1
    rw [List.cons_append, wordsFrom_emit ha, ih h.2, Option.getD_some, List.append_assoc]
    rfl

/-- A text that comes out as part of its word, in a script that loses no byte but blanks, means itself. -/
theorem bareBefore_of_kept {ts : List Bytes} (h : wordsFrom .plain (some w) (s ++ rest) = some ws)
    (htext : ws.map text = (text w ++ s) :: ts) (hk : ∀ q, q ≠ Byte.space → Kept q (some w) (s ++ rest) ws) :
    bareBefore rest.head? s = true := by
  induction s generalizing w with
  | nil => rfl
  | cons c s ih =>
    rw [List.cons_append] at h hk
    have hlost : ∀ {m : Mode} {v : Option Word}, v.getD [] = w → wordsFrom m v (s ++ rest) = some ws → c = Byte.space := by
      intro m v hv hv'
      by_contra hne
      exact ((hk c hne).dropped hv hv').1 rfl
    rw [bareBefore, ← head?_append_eq_or, Bool.and_eq_true]
    rcases act_plain_cases (some w).isSome c (s ++ rest).head? with ha | ⟨hc, ha⟩ | ⟨hc, ha⟩ | ⟨hc, ha⟩ | ⟨hc, ha⟩ | ⟨-, ha⟩ | ha
    · -- the word ends here, so it is too short
      rw [wordsFrom_blank ha] at h
      obtain ⟨ws', -, rfl⟩ := Option.map_eq_some_iff.1 h
      have hlen := congrArg List.length (List.cons.inj htext).1
      simp at hlen
    · rw [wordsFrom_quote ha] at h
      exact absurd (hlost rfl h) (by rw [hc]; decide)
    · rw [wordsFrom_quote ha] at h
      exact absurd (hlost rfl h) (by rw [hc]; decide)
    · rw [wordsFrom_drop ha] at h
      exact absurd (hlost rfl h) (by rw [hc]; decide)
    · rw [wordsFrom_drop ha] at h
      exact absurd (hlost rfl h) (by rw [hc]; decide)
    · rw [wordsFrom_emit ha, Option.getD_some] at h
      have hword : text w ++ c :: s = text (w ++ [(c, decide (Mode.plain ≠ .plain))]) ++ s := by simp [text]
      exact ⟨act_eq_emit_iff.1 ha, ih h (hword ▸ htext) fun q hq => (hk q hq).emit⟩
    · rw [wordsFrom_refuse ha] at h
      cases h

/-- A word begins with bytes that mean themselves everywhere; the rest of the script is its own rest. -/
theorem wordsWith_eq_self_iff (hpre : Plain pre) :
    wordsWith stays (pre ++ s) = some [pre ++ s] ↔ bareBefore none s = true ∧ stays (bare (pre ++ s)) = true := by
  have hstart : wordsFrom .plain none (pre ++ s) = wordsFrom .plain (some (bare pre)) s := wordsFrom_start hpre.1 hpre.2
  have hread (h : bareBefore none s = true) : wordsFrom .plain none (pre ++ s) = some [bare (pre ++ s)] := by
    have hend : bareBefore ([] : Bytes).head? s = true := h
    rw [hstart, bare_append, ← List.append_nil s, wordsFrom_bare hend, List.append_nil]
    rfl
  rw [wordsWith_eq_some_iff]
  constructor
  · rintro ⟨ws, hws, hstays, htext⟩
    have hflat : ws.flatMap text = pre ++ s := by rw [List.flatMap_def, htext, List.flatten_singleton]
    have hbare : bareBefore none s = true := by
      have hend : wordsFrom .plain (some (bare pre)) (s ++ []) = some ws := by rw [List.append_nil, ← hstart, hws]
      refine bareBefore_of_kept hend (by rw [htext, text_bare]) fun q _ => ?_
      simp [Kept, hflat]
    rw [hread hbare] at hws
    cases hws
    exact ⟨hbare, hstays _ List.mem_cons_self⟩
  · rintro ⟨hbare, hstays⟩
    exact ⟨_, hread hbare, List.forall_mem_singleton.2 hstays, by simp⟩

/-- A word with a blank behind it, and a last word. -/
theorem wordsWith_middle_iff (hpre : Plain pre) : wordsWith stays (pre ++ s ++ Byte.space :: t) = some [pre ++ s, t] ↔
    (bareBefore (some Byte.space) s = true ∧ stays (bare (pre ++ s)) = true) ∧ wordsWith stays t = some [t] := by
  have hstart : wordsFrom .plain none (pre ++ s ++ Byte.space :: t) = wordsFrom .plain (some (bare pre)) (s ++ Byte.space :: t) := by
    rw [List.append_assoc]
    exact wordsFrom_start hpre.1 hpre.2
  have hread (h : bareBefore (some Byte.space) s = true) :
      wordsFrom .plain none (pre ++ s ++ Byte.space :: t) = (wordsFrom .plain none t).map (bare (pre ++ s) :: ·) := by
    have hbehind : bareBefore (Byte.space :: t).head? s = true := h
    rw [hstart, bare_append, wordsFrom_bare hbehind]
    rfl
  constructor
  · intro h
    obtain ⟨ws, hws, hstays, htext⟩ := wordsWith_eq_some_iff.1 h
    have hflat : ws.flatMap text = pre ++ s ++ t := by rw [List.flatMap_def, htext, List.flatten_cons, List.flatten_singleton]
    have hbare : bareBefore (some Byte.space) s = true := by
      refine bareBefore_of_kept (hstart.symm.trans hws) (by rw [htext, text_bare]) fun q hq => ?_
      simp [Kept, hflat, Ne.symm hq]
    have hstay : stays (bare (pre ++ s)) = true := by
      rw [hread hbare] at hws
      obtain ⟨ws', -, rfl⟩ := Option.map_eq_some_iff.1 hws
      exact hstays _ List.mem_cons_self
    rw [wordsWith_cons (hread hbare) hstay, text_bare] at h
    obtain ⟨ts, hts, heq⟩ := Option.map_eq_some_iff.1 h
    exact ⟨⟨hbare, hstay⟩, (List.cons.inj heq).2 ▸ hts⟩
  · rintro ⟨⟨hbare, hstay⟩, ht⟩
    rw [wordsWith_cons (hread hbare) hstay, text_bare, ht]
    rfl

/-- Blanks before a word make no difference. -/
theorem wordsWith_space (s : Bytes) : wordsWith stays (Byte.space :: s) = wordsWith stays s := by
  have hread : wordsFrom .plain none (Byte.space :: s) = (wordsFrom .plain none s).map ([] ++ ·) := rfl
  unfold wordsWith
  rw [hread]
  simp

theorem not_bareBefore_of_space (h : Byte.space ∈ s) : bareBefore behind s ≠ true := by
  intro hbare
  obtain ⟨b, hb⟩ := bareByte_of_mem hbare h
  cases hb

/-- Words that mean themselves, each with a blank behind it. -/
theorem wordsWith_line (fixed : List Bytes) (h : ∀ v ∈ fixed, Plain v) (hstays : ∀ v ∈ fixed, stays (bare v) = true) (rest : Bytes) :
    wordsWith stays (fixed.flatMap (· ++ [Byte.space]) ++ rest) = (wordsWith stays rest).map (fixed ++ ·) := by
  induction fixed with
  | nil => simp
  | cons v fixed ih =>
    rw [List.flatMap_cons, List.append_assoc, List.append_assoc, List.singleton_append,
      wordsWith_cons (wordsFrom_plain_word (h v List.mem_cons_self)) (hstays v List.mem_cons_self), text_bare,
      ih (fun v' hv' => h v' (List.mem_cons_of_mem v hv')) fun v' hv' => hstays v' (List.mem_cons_of_mem v hv'), Option.map_map]
    rfl

/-! ## Patterns -/

/-- A text outside of quotes, behind the bytes `pre` of its word and before the byte `behind`, comes out as it is: each of its bytes
means itself, and as a pattern the word finds no path, or only itself. -/
def Stands (glob : Word → List Bytes) (pre : Bytes) (behind : Option UInt8) (s : Bytes) : Prop :=
  bareBefore behind s = true ∧
    ((pre ++ s).any patternByte = true → glob (bare (pre ++ s)) = [] ∨ glob (bare (pre ++ s)) = [pre ++ s])

variable {glob : Word → List Bytes}

theorem staysIn_bare_iff : staysIn glob (bare s) = true ↔ (s.any patternByte = true → glob (bare s) = [] ∨ glob (bare s) = [s]) := by
  rw [← isPattern_bare]
  cases h : isPattern (bare s) <;> simp [staysIn, h]

/-- The last word of a script, behind bytes that mean themselves everywhere. -/
theorem wordsIn_eq_self_iff (hpre : Plain pre) : wordsIn glob (pre ++ s) = some [pre ++ s] ↔ Stands glob pre none s :=
  (wordsWith_eq_self_iff hpre).trans (and_congr_right fun _ => staysIn_bare_iff)

/-- A script of one word that begins with a byte that means itself everywhere. -/
theorem wordsIn_word_iff (hc : inert c = true) : wordsIn glob (c :: s) = some [c :: s] ↔ Stands glob [] none (c :: s) := by
  have hpre : Plain [c] := ⟨List.cons_ne_nil c [], List.forall_mem_singleton.2 hc⟩
  refine (wordsIn_eq_self_iff (s := s) hpre).trans ?_
  unfold Stands
  rw [bareBefore, bareByte_of_inert hc, Bool.true_and]
  rfl

theorem wordsIn_middle_iff (hpre : Plain pre) : wordsIn glob (pre ++ s ++ Byte.space :: t) = some [pre ++ s, t] ↔
    Stands glob pre (some Byte.space) s ∧ wordsIn glob t = some [t] :=
  (wordsWith_middle_iff hpre).trans (and_congr_left fun _ => and_congr_right fun _ => staysIn_bare_iff)

/-- A word of bytes that mean themselves stays as it is. -/
theorem staysIn_of_inert (h : ∀ c ∈ s, inert c = true) : staysIn glob (bare s) = true := by
  rw [staysIn, isPattern_bare_of_inert h]
  rfl

theorem wordsIn_space (s : Bytes) : wordsIn glob (Byte.space :: s) = wordsIn glob s := wordsWith_space s

/-- Words that mean themselves, each with a blank behind it. -/
theorem wordsIn_line (fixed : List Bytes) (h : ∀ v ∈ fixed, Plain v) (rest : Bytes) :
    wordsIn glob (fixed.flatMap (· ++ [Byte.space]) ++ rest) = (wordsIn glob rest).map (fixed ++ ·) :=
  wordsWith_line fixed h (fun v hv => staysIn_of_inert (h v hv).2) rest

end

end Shell
