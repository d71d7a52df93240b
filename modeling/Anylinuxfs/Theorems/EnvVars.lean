import Anylinuxfs.Decrypt

/-!
# The variables of an expression

`find_env_vars` goes over an expression with three flags and one character of look-behind. Outside of a reference its state is
`between`: what has been read matters only through the names that were found and through whether the last character is a
backslash. From there a whole piece of text leads back to `between`, and a name that is not closed by a brace is complete with
the character behind it, whatever that is.
-/

namespace Anylinuxfs

section

variable {isAlphanumeric : Char → Bool} {vars : List (List Char)} {text name rest : List Char} {c last : Char}

/-- A character of a name. -/
def isNameChar (isAlphanumeric : Char → Bool) (c : Char) : Bool := isAlphanumeric c || c == '_'

/-- A name that a reference can have. -/
structure IsVarName (isAlphanumeric : Char → Bool) (name : List Char) : Prop where
  nonempty : name ≠ []
  chars : ∀ c ∈ name, isNameChar isAlphanumeric c = true

/-- `char::is_alphanumeric` is that of ASCII for the characters of ASCII. -/
def AsciiAlphanumeric (isAlphanumeric : Char → Bool) : Prop := ∀ c : Char, c.toNat < 128 → isAlphanumeric c = c.isAlphanum

theorem AsciiAlphanumeric.ne_mark (h : AsciiAlphanumeric isAlphanumeric) (hc : isNameChar isAlphanumeric c = true) :
    c ≠ '$' ∧ c ≠ '{' ∧ c ≠ '}' ∧ c ≠ '\\' := by
  have hmarks : ∀ m ∈ ['$', '{', '}', '\\'], isNameChar isAlphanumeric m = false := by
    have hascii : (['$', '{', '}', '\\'].all fun m => m.toNat < 128 && !(m.isAlphanum || m == '_')) = true := by decide
    intro m hm
    obtain ⟨hlt, hmark⟩ := Bool.and_eq_true_iff.1 (List.all_eq_true.1 hascii m hm)
    rw [isNameChar, h m (of_decide_eq_true hlt)]
    exact Bool.not_eq_true' _ ▸ hmark
  have hne : ∀ m ∈ ['$', '{', '}', '\\'], c ≠ m := by
    rintro m hm rfl
    rw [hmarks c hm] at hc
    cases hc
  exact ⟨hne _ (by simp), hne _ (by simp), hne _ (by simp), hne _ (by simp)⟩

/-! ## States of the scan -/

/-- What is found from a state on. -/
def VarScan.found (isAlphanumeric : Char → Bool) (s : VarScan) (text : List Char) : List (List Char) :=
  let s := text.foldl (VarScan.next isAlphanumeric) s
  if s.inVar = true ∧ s.inBraces = false then s.finishName.vars else s.vars

theorem VarScan.found_cons (s : VarScan) (c : Char) (text : List Char) :
    VarScan.found isAlphanumeric s (c :: text) = VarScan.found isAlphanumeric (s.next isAlphanumeric c) text := rfl

/-- Outside of a reference. -/
def VarScan.between (vars : List (List Char)) (last : Char) : VarScan := { vars, lastChar := last }

/-- Inside a reference. -/
def VarScan.inside (inBraces : Bool) (vars : List (List Char)) (name : List Char) (last : Char) : VarScan :=
  { inVar := true, inBraces, varName := name, lastChar := last, vars }

theorem VarScan.next_between (hc : c ≠ '$') : (between vars last).next isAlphanumeric c = between vars c := by
  simp [VarScan.next, between, hc]

theorem VarScan.next_between_dollar (hlast : last ≠ '\\') :
    (between vars last).next isAlphanumeric '$' = inside false vars [] '$' := by
  simp [VarScan.next, between, inside, hlast]

/-- A dollar sign behind a backslash begins no reference. -/
theorem VarScan.next_between_escaped : (between vars '\\').next isAlphanumeric '$' = between vars '$' := by
  simp [VarScan.next, between]

theorem VarScan.next_inside {inBraces : Bool} (h : AsciiAlphanumeric isAlphanumeric) (hc : isNameChar isAlphanumeric c = true) :
    (inside inBraces vars name last).next isAlphanumeric c = inside inBraces vars (name ++ [c]) c := by
  obtain ⟨hdollar, hopen, hclose, -⟩ := h.ne_mark hc
  have hchar : isAlphanumeric c = true ∨ c = '_' := by simpa [isNameChar] using hc
  cases inBraces <;> simp [VarScan.next, inside, hdollar, hopen, hclose, hchar]

theorem VarScan.next_inside_open : (inside false vars [] last).next isAlphanumeric '{' = inside true vars [] '{' := by
  simp [VarScan.next, inside]

theorem VarScan.next_inside_close (hne : name ≠ []) :
    (inside true vars name last).next isAlphanumeric '}' = between (vars ++ [name]) '}' := by
  simp [VarScan.next, inside, between, finishName, hne]

/-- The character behind a name has the effect that it has outside of a reference once the name is found. -/
theorem VarScan.next_inside_behind {l : Char} (hne : name ≠ []) (hc : isNameChar isAlphanumeric c = false) (hl : l ≠ '\\') :
    (inside false vars name last).next isAlphanumeric c = (between (vars ++ [name]) l).next isAlphanumeric c := by
  obtain ⟨halnum, hunderscore⟩ : isAlphanumeric c = false ∧ c ≠ '_' := by simpa [isNameChar] using hc
  by_cases hdollar : c = '$'
  · subst hdollar
    simp [VarScan.next, inside, between, finishName, hne, hl]
  · simp [VarScan.next, inside, between, finishName, hne, hdollar, halnum, hunderscore]

/-! ## Pieces of text -/

theorem VarScan.found_between (h : '$' ∉ text) :
    found isAlphanumeric (between vars last) (text ++ rest) = found isAlphanumeric (between vars (text.getLastD last)) rest := by
  induction text generalizing last with
  | nil => rfl
  | cons c text ih =>
    rw [List.mem_cons, not_or] at h
    rw [List.cons_append, found_cons, next_between (Ne.symm h.1), ih h.2, List.getLastD_cons]

theorem VarScan.found_inside {inBraces : Bool} {last : Char} (h : AsciiAlphanumeric isAlphanumeric)
    (hname : ∀ c ∈ name, isNameChar isAlphanumeric c = true) (read : List Char) :
    found isAlphanumeric (inside inBraces vars read last) (name ++ rest) =
      found isAlphanumeric (inside inBraces vars (read ++ name) (name.getLastD last)) rest := by
  induction name generalizing read last with
  | nil => rw [List.nil_append, List.append_nil]; rfl
  | cons c name ih =>
    rw [List.cons_append, found_cons, next_inside h (hname c List.mem_cons_self),
      ih (fun c hc => hname c (List.mem_cons_of_mem _ hc)), List.append_assoc, List.getLastD_cons]
    rfl

/-- A name is complete before a character that no name has, and at the end. -/
theorem VarScan.found_inside_behind {l : Char} (hne : name ≠ []) (hrest : ∀ c ∈ rest.head?, isNameChar isAlphanumeric c = false)
    (hl : l ≠ '\\') :
    found isAlphanumeric (inside false vars name last) rest = found isAlphanumeric (between (vars ++ [name]) l) rest := by
  cases rest with
  | nil => simp [found, inside, between, finishName, hne]
  | cons c rest => rw [found_cons, found_cons, next_inside_behind hne (hrest c rfl) hl]

theorem VarScan.found_plain (h : AsciiAlphanumeric isAlphanumeric) (hname : IsVarName isAlphanumeric name)
    (hrest : ∀ c ∈ rest.head?, isNameChar isAlphanumeric c = false) (hlast : last ≠ '\\') :
    found isAlphanumeric (between vars last) ('$' :: (name ++ rest)) =
      found isAlphanumeric (between (vars ++ [name]) last) rest := by
  rw [found_cons, next_between_dollar hlast, found_inside h hname.chars, List.nil_append,
    found_inside_behind hname.nonempty hrest hlast]

theorem VarScan.found_braced (h : AsciiAlphanumeric isAlphanumeric) (hname : IsVarName isAlphanumeric name) (hlast : last ≠ '\\') :
    found isAlphanumeric (between vars last) ('$' :: '{' :: (name ++ '}' :: rest)) =
      found isAlphanumeric (between (vars ++ [name]) '}') rest := by
  rw [found_cons, next_between_dollar hlast, found_cons, next_inside_open, found_inside h hname.chars, List.nil_append,
    found_cons, next_inside_close hname.nonempty]

end

/-! ## Segments -/

/-- A piece of an expression: a text, an escaped dollar sign, or a reference with braces or without. -/
inductive Segment where
  | literal (text : List Char)
  | dollar
  | braced (name : List Char)
  | plain (name : List Char)
  deriving DecidableEq, Repr

namespace Segment

def text : Segment → List Char
  | literal text => text
  | dollar => ['\\', '$']
  | braced name => '$' :: '{' :: (name ++ ['}'])
  | plain name => '$' :: name

/-- The name that a segment refers to. -/
def reference : Segment → Option (List Char)
  | braced name | plain name => some name
  | literal _ | dollar => none

/-- A segment before the text `rest`. -/
def Fits (isAlphanumeric : Char → Bool) (rest : List Char) : Segment → Prop
  | literal text => '$' ∉ text ∧ '\\' ∉ text
  | dollar => True
  | braced name => IsVarName isAlphanumeric name
  | plain name => IsVarName isAlphanumeric name ∧ ∀ c ∈ rest.head?, isNameChar isAlphanumeric c = false

/-- The expression that the segments make. -/
def concat (segs : List Segment) : List Char := segs.flatMap text

/-- Each of the segments fits before the text of those behind it. -/
def Fit (isAlphanumeric : Char → Bool) : List Segment → Prop
  | [] => True
  | seg :: segs => seg.Fits isAlphanumeric (concat segs) ∧ Fit isAlphanumeric segs

section

variable {isAlphanumeric : Char → Bool} {vars : List (List Char)} {rest : List Char} {last : Char}

/-- One segment: its name is found, and no backslash is left behind. -/
theorem found_text (h : AsciiAlphanumeric isAlphanumeric) (vars : List (List Char)) {seg : Segment}
    (hseg : seg.Fits isAlphanumeric rest) (hlast : last ≠ '\\') :
    ∃ l, l ≠ '\\' ∧ VarScan.found isAlphanumeric (.between vars last) (seg.text ++ rest) =
      VarScan.found isAlphanumeric (.between (vars ++ seg.reference.toList) l) rest := by
  cases seg with
  | literal text =>
    obtain ⟨hdollar, hback⟩ := hseg
    refine ⟨text.getLastD last, fun heq => ?_, ?_⟩
    · rw [List.getLastD_eq_getLast?] at heq
      cases hl : text.getLast? with
      | none => exact hlast (by simpa [hl] using heq)
      | some c =>
        rw [hl, Option.getD_some] at heq
        exact hback (heq ▸ List.mem_of_getLast? hl)
    · rw [reference, Option.toList_none, List.append_nil]
      exact VarScan.found_between hdollar
  | dollar =>
    refine ⟨'$', by decide, ?_⟩
    rw [reference, Option.toList_none, List.append_nil]
    change VarScan.found isAlphanumeric _ ('\\' :: '$' :: rest) = _
    rw [VarScan.found_cons, VarScan.next_between (by decide), VarScan.found_cons, VarScan.next_between_escaped]
  | braced name =>
    refine ⟨'}', by decide, ?_⟩
    rw [text, List.cons_append, List.cons_append, List.append_assoc]
    exact VarScan.found_braced h hseg hlast
  | plain name => exact ⟨last, hlast, VarScan.found_plain h hseg.1 hseg.2 hlast⟩

theorem found_concat (h : AsciiAlphanumeric isAlphanumeric) {segs : List Segment} (hsegs : Fit isAlphanumeric segs)
    (hlast : last ≠ '\\') :
    VarScan.found isAlphanumeric (.between vars last) (concat segs) = vars ++ segs.filterMap reference := by
  induction segs generalizing vars last with
  | nil => simp [concat, VarScan.found, VarScan.between]
  | cons seg segs ih =>
    obtain ⟨l, hl, hfound⟩ := found_text h vars hsegs.1 hlast
    rw [show concat (seg :: segs) = seg.text ++ concat segs from List.flatMap_cons, hfound, ih hsegs.2 hl, List.append_assoc]
    cases hname : seg.reference <;> simp [hname]

end

end Segment

/-- The variables of an expression that is made of segments are the names of its references. -/
theorem mem_findEnvVars_concat {isAlphanumeric : Char → Bool} (hascii : AsciiAlphanumeric isAlphanumeric) {segs : List Segment}
    (h : Segment.Fit isAlphanumeric segs) (name : List Char) :
    name ∈ findEnvVars isAlphanumeric (Segment.concat segs) ↔ ∃ seg ∈ segs, seg.reference = some name := by
  have hfound : findEnvVars isAlphanumeric (Segment.concat segs) = segs.filterMap Segment.reference :=
    Segment.found_concat hascii h (by decide)
  rw [hfound, List.mem_filterMap]

theorem asciiAlphanumeric_isAlphanum : AsciiAlphanumeric Char.isAlphanum := fun _ _ => rfl

/-- Two references that meet, behind an escaped one. -/
theorem mem_findEnvVars_concat_refs : "HOME".toList ∈ findEnvVars Char.isAlphanum "\\$A${B}$HOME".toList ↔
    ∃ seg ∈ [Segment.dollar, .literal "A".toList, .braced "B".toList, .plain "HOME".toList], seg.reference = some "HOME".toList := by
  have hfit : Segment.Fit Char.isAlphanum [.dollar, .literal "A".toList, .braced "B".toList, .plain "HOME".toList] :=
    ⟨trivial, ⟨by decide, by decide⟩, ⟨by decide, List.all_eq_true.1 (by decide)⟩,
      ⟨⟨by decide, List.all_eq_true.1 (by decide)⟩, nofun⟩, trivial⟩
  exact mem_findEnvVars_concat asciiAlphanumeric_isAlphanum hfit _

/-! ## Backslashes -/

/-- Behind a backslash a reference is not found, however many backslashes there are. -/
theorem mem_findEnvVars_backslashes {isAlphanumeric : Char → Bool} (hascii : AsciiAlphanumeric isAlphanumeric)
    {text name : List Char} (htext : '$' ∉ text) (hlast : text.getLast? ≠ some '\\') (hname : IsVarName isAlphanumeric name)
    (k : Nat) : name ∈ findEnvVars isAlphanumeric (text ++ List.replicate k '\\' ++ '$' :: name) ↔ k = 0 := by
  have hbefore : '$' ∉ text ++ List.replicate k '\\' := by
    rw [List.mem_append, List.mem_replicate]
    rintro (h | ⟨-, h⟩)
    · exact htext h
    · cases h
  have hfound : findEnvVars isAlphanumeric (text ++ List.replicate k '\\' ++ '$' :: name) =
      VarScan.found isAlphanumeric (.between [] ((text ++ List.replicate k '\\').getLastD '^')) ('$' :: name) :=
    VarScan.found_between hbefore
  rw [hfound]
  cases k with
  | zero =>
    have hl : (text ++ List.replicate 0 '\\').getLastD '^' ≠ '\\' := by
      rw [List.replicate_zero, List.append_nil, List.getLastD_eq_getLast?]
      cases h : text.getLast? with
      | none => decide
      | some c =>
        rintro rfl
        exact hlast h
    have hrest : ∀ c ∈ ([] : List Char).head?, isNameChar isAlphanumeric c = false := nofun
    rw [← List.append_nil name, VarScan.found_plain hascii hname hrest hl, List.append_nil]
    simp [VarScan.found, VarScan.between]
  | succ k =>
    have hl : (text ++ List.replicate (k + 1) '\\').getLastD '^' = '\\' := by
      rw [List.replicate_succ', ← List.append_assoc, List.getLastD_concat]
    have hdollar : '$' ∉ name := fun hmem => (hascii.ne_mark (hname.chars '$' hmem)).1 rfl
    rw [hl, VarScan.found_cons, VarScan.next_between_escaped, ← List.append_nil name, VarScan.found_between hdollar, List.append_nil]
    simp [VarScan.found, VarScan.between]

/-- A reference behind backslashes is found as a shell expands it, if an even number of them precedes it and only then, exactly
when there is no backslash or an odd number of them. -/
theorem findsAsShell_iff {isAlphanumeric : Char → Bool} (hascii : AsciiAlphanumeric isAlphanumeric) {text name : List Char}
    (htext : '$' ∉ text) (hlast : text.getLast? ≠ some '\\') (hname : IsVarName isAlphanumeric name) (k : Nat) :
    (name ∈ findEnvVars isAlphanumeric (text ++ List.replicate k '\\' ++ '$' :: name) ↔ k % 2 = 0) ↔ k = 0 ∨ k % 2 = 1 := by
  rw [mem_findEnvVars_backslashes hascii htext hlast hname]
  omega

theorem findsAsShell_echo : ("A".toList ∈ findEnvVars Char.isAlphanum
    ("echo ".toList ++ List.replicate 3 '\\' ++ '$' :: "A".toList) ↔ 3 % 2 = 0) ↔ 3 = 0 ∨ 3 % 2 = 1 :=
  findsAsShell_iff asciiAlphanumeric_isAlphanum (by decide) (by decide) ⟨by decide, List.all_eq_true.1 (by decide)⟩ 3

/-- Two backslashes stand for one, so that the shell expands the reference behind them. -/
theorem findsAsShell_false : ¬ ∀ (isAlphanumeric : Char → Bool) (text name : List Char) (k : Nat),
    AsciiAlphanumeric isAlphanumeric → '$' ∉ text → text.getLast? ≠ some '\\' → IsVarName isAlphanumeric name →
      (name ∈ findEnvVars isAlphanumeric (text ++ List.replicate k '\\' ++ '$' :: name) ↔ k % 2 = 0) := by
  intro h
  have hname : IsVarName Char.isAlphanum "A".toList := ⟨by decide, List.all_eq_true.1 (by decide)⟩
  have hmem := (h Char.isAlphanum [] "A".toList 2 asciiAlphanumeric_isAlphanum (by decide) (by decide) hname).2 rfl
  exact absurd hmem (by decide)

end Anylinuxfs
