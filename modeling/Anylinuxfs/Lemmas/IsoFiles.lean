import Anylinuxfs.IsoFiles
import Anylinuxfs.Lemmas.Utf8
import Anylinuxfs.Lib.Pattern

/-!
# Lemmas about runes and paths

The runes of a text are its characters where it is well-formed, and U+FFFD for each byte where it is not. No rune reaches over a
slash, so `splitPath` finds the components of the path, each as its runes are encoded again.
-/

namespace Anylinuxfs

namespace RemoteIso

variable {s path : Bytes} {c : Char} {i k : Nat}

/-! ## Runes -/

/-- The text begins with no character. -/
def IllFormed (s : Bytes) : Prop := ∀ c rest, s ≠ String.utf8EncodeChar c ++ rest

theorem decodeRune_append (c : Char) (rest : Bytes) :
    decodeRune (String.utf8EncodeChar c ++ rest) = (c, (String.utf8EncodeChar c).length) := by
  rw [decodeRune, List.toByteArray_append, ByteArray.utf8DecodeChar?_utf8EncodeChar_append, String.length_utf8EncodeChar]

theorem decodeRune_of_illFormed (h : IllFormed s) : decodeRune s = ('\ufffd', 1) := by
  rw [decodeRune]
  cases hdecode : s.toByteArray.utf8DecodeChar? 0 with
  | none => rfl
  | some c =>
    obtain ⟨l, hl⟩ := ByteArray.exists_of_utf8DecodeChar?_eq_some hdecode
    refine absurd ?_ (h c l.data.toList)
    have hdata := congrArg (fun b : ByteArray => b.data.toList) hl
    simpa using hdata

/-- A text is empty, begins with a character, or begins with a byte that is no part of one. -/
theorem rune_induction {motive : Bytes → Prop} (nil : motive [])
    (char : ∀ c rest, motive rest → motive (String.utf8EncodeChar c ++ rest))
    (byte : ∀ b rest, IllFormed (b :: rest) → motive rest → motive (b :: rest)) (s : Bytes) : motive s := by
  induction hn : s.length using Nat.strongRecOn generalizing s with
  | ind n ih =>
    cases s with
    | nil => exact nil
    | cons b rest =>
      by_cases hill : IllFormed (b :: rest)
      · exact byte b rest hill (ih rest.length (hn ▸ Nat.lt_succ_self _) rest rfl)
      · obtain ⟨c, rest', heq⟩ : ∃ c rest', b :: rest = String.utf8EncodeChar c ++ rest' := by
          by_contra hno
          exact hill fun c rest' heq => hno ⟨c, rest', heq⟩
        have hpos : 0 < (String.utf8EncodeChar c).length := List.length_pos_iff.2 String.utf8EncodeChar_ne_nil
        rw [heq, List.length_append] at hn
        rw [heq]
        exact char c rest' (ih rest'.length (by omega) rest' rfl)

theorem runesFrom_skip (w rest : Bytes) (i : Nat) : runesFrom w.length i (w ++ rest) = runesFrom 0 (i + w.length) rest := by
  induction w generalizing i with
  | nil => rfl
  | cons b w ih =>
    rw [List.length_cons, List.cons_append, runesFrom, ih, Nat.add_right_comm, Nat.add_assoc]

theorem runesFrom_append (c : Char) (rest : Bytes) (i : Nat) :
    runesFrom 0 i (String.utf8EncodeChar c ++ rest) = (i, c) :: runesFrom 0 (i + (String.utf8EncodeChar c).length) rest := by
  obtain ⟨b, w, hw⟩ := List.exists_cons_of_ne_nil (String.utf8EncodeChar_ne_nil (c := c))
  have hdecode := decodeRune_append c rest
  rw [hw, List.cons_append] at hdecode
  rw [hw, List.cons_append, runesFrom, hdecode]
  dsimp only
  rw [List.length_cons, Nat.add_sub_cancel, runesFrom_skip, Nat.add_right_comm, Nat.add_assoc]

theorem runesFrom_of_illFormed {b : UInt8} {rest : Bytes} (h : IllFormed (b :: rest)) (i : Nat) :
    runesFrom 0 i (b :: rest) = (i, '\ufffd') :: runesFrom 0 (i + 1) rest := by
  rw [runesFrom, decodeRune_of_illFormed h]

/-- The runes of a text begin in it, one after another. -/
theorem mem_runesFrom {p : Nat × Char} (h : p ∈ runesFrom 0 i s) : i ≤ p.1 ∧ p.1 < i + s.length := by
  induction s using rune_induction generalizing i with
  | nil => cases h
  | char c rest ih =>
    have hpos : 0 < (String.utf8EncodeChar c).length := List.length_pos_iff.2 String.utf8EncodeChar_ne_nil
    rw [runesFrom_append] at h
    rw [List.length_append]
    rcases List.mem_cons.1 h with rfl | h
    · exact ⟨Nat.le_refl i, by omega⟩
    · have hrest := ih h
      omega
  | byte b rest hill ih =>
    rw [runesFrom_of_illFormed hill] at h
    rw [List.length_cons]
    rcases List.mem_cons.1 h with rfl | h
    · exact ⟨Nat.le_refl i, by omega⟩
    · have hrest := ih h
      omega

theorem pairwise_runesFrom (i : Nat) (s : Bytes) : (runesFrom 0 i s).Pairwise fun p q => p.1 < q.1 := by
  induction s using rune_induction generalizing i with
  | nil => exact .nil
  | char c rest ih =>
    have hpos : 0 < (String.utf8EncodeChar c).length := List.length_pos_iff.2 String.utf8EncodeChar_ne_nil
    rw [runesFrom_append]
    exact .cons (fun q hq => Nat.lt_of_lt_of_le (Nat.lt_add_of_pos_right hpos) (mem_runesFrom hq).1) (ih _)
  | byte b rest hill ih =>
    rw [runesFrom_of_illFormed hill]
    exact .cons (fun q hq => Nat.lt_of_lt_of_le (Nat.lt_succ_self i) (mem_runesFrom hq).1) (ih _)

theorem eq_nil_of_getLast?_runesFrom (h : (runesFrom 0 i s).getLast? = none) : s = [] := by
  cases s with
  | nil => rfl
  | cons b rest =>
    rw [runesFrom] at h
    cases List.getLast?_eq_none_iff.1 h

/-- The last rune ends the text. -/
theorem end_of_getLast?_runesFrom (h : (runesFrom 0 i s).getLast? = some (k, c)) :
    k + (String.utf8EncodeChar c).length = i + s.length ∨ k + 1 = i + s.length := by
  induction s using rune_induction generalizing i with
  | nil => cases h
  | char c' rest ih =>
    rw [runesFrom_append, List.getLast?_cons] at h
    rw [List.length_append, ← Nat.add_assoc]
    cases hlast : (runesFrom 0 (i + (String.utf8EncodeChar c').length) rest).getLast? with
    | some p =>
      rw [hlast, Option.getD_some] at h
      exact ih (hlast.trans h)
    | none =>
      rw [hlast, Option.getD_none] at h
      obtain ⟨rfl, rfl⟩ := Prod.mk.inj (Option.some.inj h)
      rw [eq_nil_of_getLast?_runesFrom hlast]
      exact .inl rfl
  | byte b rest hill ih =>
    rw [runesFrom_of_illFormed hill, List.getLast?_cons] at h
    rw [List.length_cons, Nat.add_comm rest.length 1, ← Nat.add_assoc]
    cases hlast : (runesFrom 0 (i + 1) rest).getLast? with
    | some p =>
      rw [hlast, Option.getD_some] at h
      exact ih (hlast.trans h)
    | none =>
      rw [hlast, Option.getD_none] at h
      obtain ⟨rfl, rfl⟩ := Prod.mk.inj (Option.some.inj h)
      rw [eq_nil_of_getLast?_runesFrom hlast]
      exact .inr rfl

/-! ## The text of the runes -/

/-- The runes of a text. -/
def chars (s : Bytes) : List Char := (runes s).map Prod.snd

theorem map_snd_runesFrom (i : Nat) (s : Bytes) : (runesFrom 0 i s).map Prod.snd = chars s := by
  suffices h : ∀ i j, (runesFrom 0 i s).map Prod.snd = (runesFrom 0 j s).map Prod.snd from h i 0
  induction s using rune_induction with
  | nil => exact fun _ _ => rfl
  | char c rest ih =>
    intro i j
    rw [runesFrom_append, runesFrom_append, List.map_cons, List.map_cons]
    exact congrArg _ (ih _ _)
  | byte b rest hill ih =>
    intro i j
    rw [runesFrom_of_illFormed hill, runesFrom_of_illFormed hill, List.map_cons, List.map_cons]
    exact congrArg _ (ih _ _)

theorem chars_append (c : Char) (rest : Bytes) : chars (String.utf8EncodeChar c ++ rest) = c :: chars rest := by
  rw [chars, runes, runesFrom_append, List.map_cons, map_snd_runesFrom]

theorem chars_of_illFormed {b : UInt8} {rest : Bytes} (h : IllFormed (b :: rest)) : chars (b :: rest) = '\ufffd' :: chars rest := by
  rw [chars, runes, runesFrom_of_illFormed h, List.map_cons, map_snd_runesFrom]

/-- The runes of a well-formed text are its characters. -/
theorem chars_utf8 (text : List Char) : chars (utf8 text) = text := by
  induction text with
  | nil => rfl
  | cons c text ih => rw [utf8_cons, chars_append, ih]

/-- The last rune of a well-formed text begins where its character does. -/
theorem runes_utf8_concat (text : List Char) (c : Char) : runes (utf8 (text ++ [c])) = runes (utf8 text) ++ [((utf8 text).length, c)] := by
  suffices h : ∀ i, runesFrom 0 i (utf8 (text ++ [c])) = runesFrom 0 i (utf8 text) ++ [(i + (utf8 text).length, c)] by
    have hzero := h 0
    rwa [Nat.zero_add] at hzero
  induction text with
  | nil =>
    intro i
    rw [List.nil_append, utf8_cons, runesFrom_append]
    rfl
  | cons d text ih =>
    intro i
    rw [List.cons_append, utf8_cons, utf8_cons, runesFrom_append, runesFrom_append, ih, List.length_append, Nat.add_assoc,
      List.cons_append]

/-- The bytes of the runes of a text. -/
def reencode (s : Bytes) : Bytes := utf8 (chars s)

theorem reencode_utf8 (text : List Char) : reencode (utf8 text) = utf8 text := by
  rw [reencode, chars_utf8]

theorem reencode_eq_nil_iff : reencode s = [] ↔ s = [] := by
  constructor
  · intro h
    have hchars : chars s = [] := utf8_eq_nil h
    cases s using rune_induction with
    | nil => rfl
    | char c rest => simp [chars_append] at hchars
    | byte b rest hill => simp [chars_of_illFormed hill] at hchars
  · rintro rfl
    rfl

/-- No byte is lost. -/
theorem length_le_length_reencode (s : Bytes) : s.length ≤ (reencode s).length := by
  rw [reencode]
  induction s using rune_induction with
  | nil => exact Nat.le_refl 0
  | char c rest ih =>
    rw [chars_append, utf8_cons, List.length_append, List.length_append]
    omega
  | byte b rest hill ih =>
    have hthree : (String.utf8EncodeChar '\ufffd').length = 3 := rfl
    rw [chars_of_illFormed hill, utf8_cons, List.length_append, List.length_cons]
    omega

/-! ## Slashes -/

theorem utf8EncodeChar_slash : String.utf8EncodeChar '/' = [slash] := rfl

theorem slash_mem_utf8EncodeChar_iff : slash ∈ String.utf8EncodeChar c ↔ c = '/' := by
  have h := mem_utf8_iff_of_ascii (a := '/') (by decide) (s := [c])
  rw [utf8_cons, utf8, List.flatMap_nil, List.append_nil] at h
  exact h.trans ⟨fun hmem => (List.mem_singleton.1 hmem).symm, fun heq => heq ▸ List.mem_cons_self⟩

theorem slash_mem_reencode_iff : slash ∈ reencode s ↔ '/' ∈ chars s := mem_utf8_iff_of_ascii (a := '/') (by decide)

/-- A rune is in one component. -/
theorem chars_append_slash (a b : Bytes) : chars (a ++ slash :: b) = chars a ++ '/' :: chars b := by
  induction a using rune_induction with
  | nil => exact chars_append '/' b
  | char c rest ih => rw [List.append_assoc, chars_append, chars_append, ih, List.cons_append]
  | byte b' rest hill ih =>
    have hill' : IllFormed (b' :: (rest ++ slash :: b)) := by
      intro c rest' heq
      rw [← List.cons_append] at heq
      rcases List.append_eq_append_iff.1 heq with ⟨w, hc, hrest⟩ | ⟨w, hc, -⟩
      · cases w with
        | nil => exact hill c [] (by rw [List.append_nil, hc, List.append_nil])
        | cons b'' w =>
          -- the slash would be a part of the character
          have hslash : c = '/' := by
            have hhead := (List.cons.inj hrest).1
            exact slash_mem_utf8EncodeChar_iff.1 (hc ▸ hhead ▸ List.mem_append_right _ List.mem_cons_self)
          have hlen := congrArg List.length hc
          rw [hslash, utf8EncodeChar_slash, List.length_singleton, List.length_append, List.length_cons, List.length_cons] at hlen
          omega
      · exact hill c w hc
    rw [List.cons_append, chars_of_illFormed hill', chars_of_illFormed hill, ih, List.cons_append]

theorem slash_mem_of_mem_chars (h : '/' ∈ chars s) : slash ∈ s := by
  induction s using rune_induction with
  | nil => cases h
  | char c rest ih =>
    rw [chars_append] at h
    rcases List.mem_cons.1 h with heq | h
    · exact List.mem_append_left _ (slash_mem_utf8EncodeChar_iff.2 heq.symm)
    · exact List.mem_append_right _ (ih h)
  | byte b rest hill ih =>
    rw [chars_of_illFormed hill] at h
    rcases List.mem_cons.1 h with heq | h
    · exact absurd heq (by decide)
    · exact List.mem_cons_of_mem b (ih h)

theorem slash_notMem_reencode (h : slash ∉ s) : slash ∉ reencode s := fun hmem =>
  h (slash_mem_of_mem_chars (slash_mem_reencode_iff.1 hmem))

theorem reencode_append_slash (a b : Bytes) : reencode (a ++ slash :: b) = reencode a ++ slash :: reencode b := by
  rw [reencode, chars_append_slash, utf8_append, utf8_cons]
  rfl

theorem reencode_intercalate (pieces : List Bytes) : reencode ([slash].intercalate pieces) = [slash].intercalate (pieces.map reencode) := by
  induction pieces with
  | nil => rfl
  | cons piece pieces ih =>
    cases pieces with
    | nil => simp
    | cons piece' pieces =>
      rw [List.map_cons] at ih
      rw [List.map_cons, List.map_cons, List.intercalate_cons_cons, List.intercalate_cons_cons, List.append_assoc,
        List.singleton_append, reencode_append_slash, ih, List.append_assoc, List.singleton_append]

/-- The components of the text of the runes are those of the path, each as its runes are encoded. -/
theorem splitOn_reencode (path : Bytes) : (reencode path).splitOn slash = (path.splitOn slash).map reencode := by
  have hpath : [slash].intercalate (path.splitOn slash) = path := List.intercalate_splitOn slash
  conv_lhs => rw [← hpath, reencode_intercalate]
  refine List.splitOn_intercalate slash ?_ ?_
  · intro l hl
    obtain ⟨piece, hpiece, rfl⟩ := List.mem_map.1 hl
    exact slash_notMem_reencode (Pattern.notMem_of_mem_splitOn hpiece)
  · exact fun hnil => List.splitOn_ne_nil slash path (List.map_eq_nil_iff.1 hnil)

theorem names_reencode (path : Bytes) : names (reencode path) = (names path).map reencode := by
  rw [names, splitOn_reencode, List.filter_map, names]
  congr 1
  refine List.filter_congr fun piece _ => ?_
  rw [Function.comp_apply]
  exact decide_eq_decide.2 (not_congr reencode_eq_nil_iff)

/-! ## Paths -/

theorem names_of_notMem (h : slash ∉ s) (hne : s ≠ []) : names s = [s] := by
  rw [names, List.splitOn_eq_singleton h]
  exact List.filter_cons_of_pos (decide_eq_true hne)

theorem names_append_slash (a b : Bytes) : names (a ++ slash :: b) = names a ++ names b := by
  rw [names, List.splitOn_append_cons_self, List.filter_append]
  rfl

/-- A turn of the loop of `splitPath` before the end of the path. -/
def splitChar : List Bytes × Bytes → Char → List Bytes × Bytes := fun (parts, current) char =>
  if char = '/' then
    if current ≠ [] then (parts ++ [current], []) else (parts, current)
  else (parts, current ++ String.utf8EncodeChar char)

/-- The parts with the one that has been begun. -/
def allParts : List Bytes × Bytes → List Bytes := fun (parts, current) => if current ≠ [] then parts ++ [current] else parts

theorem splitRune_eq (state : List Bytes × Bytes) (i : Nat) (c : Char) :
    splitRune path state (i, c) =
      if i = path.length - 1 then (allParts (splitChar state c), (splitChar state c).2) else splitChar state c := by
  obtain ⟨parts, current⟩ := state
  change (if i = path.length - 1 ∧ (splitChar (parts, current) c).2 ≠ [] then
    ((splitChar (parts, current) c).1 ++ [(splitChar (parts, current) c).2], (splitChar (parts, current) c).2)
      else ((splitChar (parts, current) c).1, (splitChar (parts, current) c).2)) = _
  rw [allParts]
  by_cases hi : i = path.length - 1
  · by_cases hne : (splitChar (parts, current) c).2 ≠ []
    · rw [if_pos ⟨hi, hne⟩, if_pos hi, if_pos hne]
    · rw [if_neg fun h => hne h.2, if_pos hi, if_neg hne]
  · rw [if_neg fun h => hi h.1, if_neg hi]

/-- Every component has been found or is begun. -/
theorem allParts_foldl (text : List Char) {parts : List Bytes} {current : Bytes} (h : slash ∉ current) :
    allParts (text.foldl splitChar (parts, current)) = parts ++ names (current ++ utf8 text) := by
  induction text generalizing parts current with
  | nil =>
    change allParts (parts, current) = parts ++ names (current ++ [])
    rw [List.append_nil, allParts]
    by_cases hne : current ≠ []
    · rw [if_pos hne, names_of_notMem h hne]
    · rw [if_neg hne, not_not.1 hne]
      exact (List.append_nil parts).symm
  | cons c text ih =>
    rw [List.foldl_cons, utf8_cons, splitChar]
    by_cases hc : c = '/'
    · subst hc
      rw [if_pos rfl, utf8EncodeChar_slash, List.singleton_append, names_append_slash]
      by_cases hne : current ≠ []
      · rw [if_pos hne, ih List.not_mem_nil, names_of_notMem h hne, List.append_assoc, List.nil_append]
      · rw [if_neg hne, ih h, not_not.1 hne]
        rfl
    · rw [if_neg hc, ih fun hmem => (List.mem_append.1 hmem).elim h fun hmem => hc (slash_mem_utf8EncodeChar_iff.1 hmem),
        List.append_assoc]

/-- The turn for the last rune. -/
theorem splitPath_last (h : (runes path).getLast? = some (k, c)) :
    ∃ state, allParts (splitChar state c) = names (reencode path) ∧
      splitPath path = if k + 1 = path.length then allParts (splitChar state c) else (splitChar state c).1 := by
  obtain ⟨l, hl⟩ := List.getLast?_eq_some_iff.1 h
  have hk : k < path.length := by
    have hmem : (k, c) ∈ runesFrom 0 0 path := List.mem_of_getLast? h
    simpa using (mem_runesFrom hmem).2
  have hindex : ∀ p ∈ l, p.1 ≠ path.length - 1 := by
    intro p hp
    have hpairwise := pairwise_runesFrom 0 path
    rw [← runes, hl] at hpairwise
    have hlt := (List.pairwise_append.1 hpairwise).2.2 p hp (k, c) List.mem_cons_self
    dsimp only at hlt
    omega
  have hfold : l.foldl (splitRune path) ([], []) = (l.map Prod.snd).foldl splitChar ([], []) := by
    rw [List.foldl_map]
    refine List.foldl_ext _ _ _ fun state p hp => ?_
    rw [splitRune_eq, if_neg (hindex p hp)]
  have hchars : chars path = l.map Prod.snd ++ [c] := by
    rw [chars, hl, List.map_append]
    rfl
  have hall : allParts ((chars path).foldl splitChar ([], [])) = names (reencode path) := allParts_foldl (chars path) List.not_mem_nil
  rw [hchars, List.foldl_append] at hall
  refine ⟨(l.map Prod.snd).foldl splitChar ([], []), hall, ?_⟩
  have hlast : k = path.length - 1 ↔ k + 1 = path.length := by omega
  rw [splitPath, hl, List.foldl_append, hfold, List.foldl_cons, List.foldl_nil, splitRune_eq]
  simp only [hlast]
  split <;> rfl

/-- All components are found if the last rune is a single byte. -/
theorem splitPath_of_byte (h : (runes path).getLast? = some (k, c)) (hend : k + 1 = path.length) :
    splitPath path = names (reencode path) := by
  obtain ⟨state, hall, hsplit⟩ := splitPath_last h
  rw [hsplit, if_pos hend, hall]

/-- Otherwise the last one is left out. -/
theorem splitPath_of_bytes (h : (runes path).getLast? = some (k, c)) (hend : k + 1 ≠ path.length) :
    ∃ part, names (reencode path) = splitPath path ++ [part] := by
  obtain ⟨state, hall, hsplit⟩ := splitPath_last h
  have hc : c ≠ '/' := by
    rintro rfl
    have hlast := end_of_getLast?_runesFrom h
    rw [utf8EncodeChar_slash, List.length_singleton, Nat.zero_add, or_self] at hlast
    exact hend hlast
  refine ⟨(splitChar state c).2, ?_⟩
  rw [hsplit, if_neg hend, ← hall, allParts, splitChar, if_neg hc]
  exact if_pos fun hnil => String.utf8EncodeChar_ne_nil (List.append_eq_nil_iff.1 hnil).2

end RemoteIso

end Anylinuxfs
