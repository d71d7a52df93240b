import Anylinuxfs.Lib.Pattern
import Anylinuxfs.Lib.Search
import Anylinuxfs.Theorems.ListLabel
import Anylinuxfs.VmHostname

/-!
# The host name of the virtual machine

A host name is made of characters of one byte, so that it can be cut anywhere. The names with different numbers are different
although a longer number leaves less of the base, and so one of them is free. Only the start and the end of the name of the disk
can put a hyphen at an end.
-/

namespace Anylinuxfs

namespace VmHostname

variable {diskIdent base name : List Char} {active : Finset (List Char)} {n : Nat} {c : Char}

/-! ## The name of the file -/

theorem splitOn_utf8 (path : List Char) : (utf8 path).splitOn slash = (path.splitOn '/').map utf8 := by
  have hpieces : ∀ piece ∈ (path.splitOn '/').map utf8, slash ∉ piece := by
    intro piece hpiece hslash
    obtain ⟨text, htext, rfl⟩ := List.mem_map.1 hpiece
    exact Pattern.notMem_of_mem_splitOn htext ((mem_utf8_iff_of_ascii (a := '/') (by decide)).1 hslash)
  have htext : ['/'].intercalate (path.splitOn '/') = path := List.intercalate_splitOn '/'
  have hjoin : [slash].intercalate ((path.splitOn '/').map utf8) = utf8 path :=
    (utf8_intercalate ['/'] _).symm.trans (congrArg utf8 htext)
  rw [← hjoin]
  exact List.splitOn_intercalate slash hpieces (by simp [List.splitOn_ne_nil])

theorem utf8_eq_iff {a b : List Char} : utf8 a = utf8 b ↔ a = b := ⟨utf8_injective, congrArg utf8⟩

/-- What is in front of the last component does not matter, and a front that is not a name is no name when it is alone. -/
theorem filter_getLast?_append {α : Type} {p : α → Bool} {front : List α} (h : ∀ a ∈ front, p a = false) (l : List α) :
    (front ++ l).getLast?.filter p = l.getLast?.filter p := by
  by_cases hl : l = []
  · subst hl
    rw [List.append_nil, List.getLast?_nil, Option.filter_none, Option.filter_eq_none_iff]
    exact fun a ha => by rw [h a (List.mem_of_mem_getLast? ha)]; exact Bool.false_ne_true
  · rw [List.getLast?_append_of_ne_nil _ hl]

/-- A path whose first piece is not empty is relative. -/
theorem head?_of_splitOn {path piece : List Char} {rest : List (List Char)} (hsplit : path.splitOn '/' = piece :: rest)
    (hne : piece ≠ []) : (utf8 path).head? ≠ some slash := by
  obtain ⟨b, tail, hb⟩ := List.exists_cons_of_ne_nil fun h => hne (utf8_eq_nil h)
  have hpath : (utf8 path).head? = some b := by
    have hjoin : [slash].intercalate ((utf8 path).splitOn slash) = utf8 path := List.intercalate_splitOn slash
    rw [splitOn_utf8, hsplit, List.map_cons, hb] at hjoin
    rw [← hjoin]
    cases rest.map utf8 <;> rfl
  intro hslash
  have hmem : slash ∈ utf8 piece := by
    rw [hb, Option.some.inj (hslash.symm.trans hpath)]
    exact List.mem_cons_self
  have hpiece : piece ∈ path.splitOn '/' := hsplit ▸ List.mem_cons_self
  exact Pattern.notMem_of_mem_splitOn hpiece ((mem_utf8_iff_of_ascii (a := '/') (by decide)).1 hmem)

/-- The components are the pieces with names, after a root or a dot. -/
theorem components_utf8 (path : List Char) : ∃ front : List Bytes, (∀ c ∈ front, c = [slash] ∨ c = bytes ".") ∧
    components (utf8 path) = front ++ ((path.splitOn '/').filter fun c => c ≠ [] ∧ c ≠ ".".toList).map utf8 := by
  obtain ⟨piece, rest, hsplit⟩ := List.exists_cons_of_ne_nil (List.splitOn_ne_nil '/' path)
  have hrest : (rest.map utf8).filter (fun c => c ≠ [] ∧ c ≠ bytes ".") =
      (rest.filter fun c => c ≠ [] ∧ c ≠ ".".toList).map utf8 := by
    rw [List.filter_map]
    refine congrArg _ (List.filter_congr fun c _ => decide_eq_decide.2 ?_)
    exact and_congr (not_congr (utf8_eq_iff (b := []))) (not_congr utf8_eq_iff)
  rw [components, splitOn_utf8, hsplit, List.map_cons]
  change ∃ front : List Bytes, _ ∧ (if (utf8 path).head? = some slash then [[slash]] else if utf8 piece = [] then [] else [utf8 piece]) ++
    (rest.map utf8).filter (fun c => c ≠ [] ∧ c ≠ bytes ".") = _
  rw [hrest, List.filter_cons]
  by_cases hnil : piece = []
  · subst hnil
    refine ⟨if (utf8 path).head? = some slash then [[slash]] else [], ?_, rfl⟩
    split
    · exact List.forall_mem_singleton.2 (.inl rfl)
    · exact fun c hc => absurd hc List.not_mem_nil
  · have hhead : (utf8 path).head? ≠ some slash := head?_of_splitOn hsplit hnil
    rw [if_neg hhead, if_neg fun h => hnil (utf8_eq_nil h)]
    by_cases hdot : piece = ".".toList
    · subst hdot
      exact ⟨[bytes "."], List.forall_mem_singleton.2 (.inr rfl), rfl⟩
    · rw [if_pos (decide_eq_true ⟨hnil, hdot⟩)]
      exact ⟨[], fun c hc => absurd hc List.not_mem_nil, rfl⟩

/-- The name of the file is found in the text as in its bytes. -/
theorem fileName_utf8 (path : List Char) : fileName (utf8 path) = (textFileName path).map utf8 := by
  obtain ⟨front, hfront, hcomponents⟩ := components_utf8 path
  rw [fileName, hcomponents, filter_getLast?_append fun c hc => ?_, textFileName, List.getLast?_map]
  · cases hlast : ((path.splitOn '/').filter fun c => c ≠ [] ∧ c ≠ ".".toList).getLast? with
    | none => rfl
    | some name =>
      obtain ⟨hpiece, hname⟩ := List.mem_filter.1 (List.mem_of_mem_getLast? hlast)
      have hslash : utf8 name ≠ [slash] := by
        intro h
        have hmem : '/' ∈ name := (mem_utf8_iff_of_ascii (a := '/') (by decide)).1 (h ▸ List.mem_singleton_self slash)
        exact Pattern.notMem_of_mem_splitOn hpiece hmem
      have hdot : utf8 name ≠ bytes "." := fun h => (of_decide_eq_true hname).2 (utf8_injective h)
      rw [Option.map_some, Option.filter_some, Option.filter_some]
      by_cases h : name = "..".toList
      · subst h
        rfl
      · rw [if_pos (decide_eq_true ⟨hslash, hdot, fun h' => h (utf8_injective h')⟩), if_pos (decide_eq_true h)]
        rfl
  · rcases hfront c hc with rfl | rfl <;> decide

/-! ## Characters -/

theorem toNat_lt_of_isHostChar (h : isHostChar c = true) : c.toNat < 0x80 := by
  rcases Bool.or_eq_true_iff.1 h with h | h
  · have hrange := range_of_isAlphanum h
    omega
  · obtain rfl := eq_of_beq h
    decide

theorem isHostChar_of_isDigit (h : c.isDigit = true) : isHostChar c = true := by
  simp [isHostChar, Char.isAlphanum, h]

theorem isHostChar_digits (n : Nat) : ∀ c ∈ '-' :: Nat.toDigits 10 n, isHostChar c = true := by
  intro c hc
  rcases List.mem_cons.1 hc with rfl | hc
  · rfl
  · exact isHostChar_of_isDigit (Nat.isDigit_of_mem_toDigits (by decide) (by decide) hc)

/-- A host name has as many bytes as characters. -/
theorem length_utf8 (h : ∀ c ∈ name, isHostChar c = true) : (utf8 name).length = name.length := by
  induction name with
  | nil => rfl
  | cons c name ih =>
    have hc := toNat_lt_of_isHostChar (h c List.mem_cons_self)
    rw [utf8_cons, utf8EncodeChar_of_ascii hc, List.length_append, ih fun d hd => h d (List.mem_cons_of_mem c hd),
      List.length_singleton, List.length_cons, Nat.add_comm]

/-- A host name can be cut anywhere. -/
theorem sliceTo_of_isHostChar (h : ∀ c ∈ name, isHostChar c = true) (hn : n ≤ name.length) : sliceTo n name = some (name.take n) := by
  refine sliceTo_eq_some.2 ⟨List.take_prefix n name, ?_⟩
  rw [length_utf8 fun c hc => h c (List.mem_of_mem_take hc), List.length_take, Nat.min_eq_left hn]

/-! ## From the identifier of a disk -/

theorem prefix_cases (diskIdent : List Char) : (prefixAndToken diskIdent).1 = [] ∨ (prefixAndToken diskIdent).1 ∈ special := by
  unfold prefixAndToken
  split
  · split
    · next h => exact .inr h
    · exact .inl rfl
  · exact .inl rfl
  · exact .inl rfl

/-- Before the name of the disk stands nothing, or a word and a hyphen. -/
theorem lead_cases (diskIdent : List Char) :
    lead diskIdent = [] ∨ lead diskIdent = "lvm-".toList ∨ lead diskIdent = "raid-".toList := by
  rcases prefix_cases diskIdent with h | h
  · exact .inl (if_pos h)
  · refine .inr ?_
    rcases List.mem_cons.1 h with h | h
    · exact .inl (by rw [lead, h]; rfl)
    · exact .inr (by rw [lead, List.mem_singleton.1 h]; rfl)

theorem length_lead (diskIdent : List Char) : (lead diskIdent).length ≤ 5 := by
  rcases lead_cases diskIdent with h | h | h <;> rw [h] <;> decide

theorem isHostChar_lead : ∀ c ∈ lead diskIdent, isHostChar c = true := by
  rcases lead_cases diskIdent with h | h | h <;> rw [h]
  · exact fun c hc => absurd hc List.not_mem_nil
  · exact List.all_eq_true.1 (by decide)
  · exact List.all_eq_true.1 (by decide)

theorem isHostChar_kept : ∀ c ∈ kept diskIdent, isHostChar c = true := fun _ hc => (List.mem_filter.1 hc).2

/-- The prefix, and what remains of the name of the disk or a word in its place. -/
def whole (diskIdent : List Char) : List Char := lead diskIdent ++ if kept diskIdent = [] then "disk".toList else kept diskIdent

theorem isHostChar_whole : ∀ c ∈ whole diskIdent, isHostChar c = true := by
  have hdisk : ∀ c ∈ "disk".toList, isHostChar c = true := List.all_eq_true.1 (by decide)
  intro c hc
  rcases List.mem_append.1 hc with hc | hc
  · exact isHostChar_lead c hc
  · split at hc
    · exact hdisk c hc
    · exact isHostChar_kept c hc

theorem take_whole (diskIdent : List Char) : (whole diskIdent).take 63 = plainName diskIdent := by
  have hlead := length_lead diskIdent
  rw [whole, List.take_append, List.take_of_length_le (by omega), plainName]
  congr 1
  split
  · refine List.take_of_length_le ?_
    have hdisk : "disk".toList.length = 4 := rfl
    omega
  · rfl

theorem hostnameFromDiskIdent_whole (diskIdent : List Char) : hostnameFromDiskIdent diskIdent =
    if 63 < (utf8 (whole diskIdent)).length then sliceTo 63 (whole diskIdent) else some (whole diskIdent) := by
  have hwhole : (if (prefixAndToken diskIdent).1 = [] then (if kept diskIdent = [] then "disk".toList else kept diskIdent)
      else (prefixAndToken diskIdent).1 ++ '-' :: (if kept diskIdent = [] then "disk".toList else kept diskIdent)) =
      whole diskIdent := by
    rw [whole, lead]
    by_cases h : (prefixAndToken diskIdent).1 = []
    · rw [if_pos h, if_pos h, List.nil_append]
    · rw [if_neg h, if_neg h, List.append_assoc, List.singleton_append]
  rw [← hwhole]
  rfl

/-- The host name is cut without a panic. -/
theorem hostnameFromDiskIdent_eq (diskIdent : List Char) : hostnameFromDiskIdent diskIdent = some (plainName diskIdent) := by
  rw [hostnameFromDiskIdent_whole, ← take_whole, length_utf8 isHostChar_whole]
  by_cases h : 63 < (whole diskIdent).length
  · rw [if_pos h]
    exact sliceTo_of_isHostChar isHostChar_whole (Nat.le_of_lt h)
  · rw [if_neg h, List.take_of_length_le (Nat.le_of_not_lt h)]

theorem isHostChar_plainName : ∀ c ∈ plainName diskIdent, isHostChar c = true := by
  rw [← take_whole]
  exact fun c hc => isHostChar_whole c (List.mem_of_mem_take hc)

theorem length_plainName (diskIdent : List Char) : (plainName diskIdent).length ≤ 63 := by
  rw [← take_whole]
  exact List.length_take_le _ _

theorem plainName_ne_nil (diskIdent : List Char) : plainName diskIdent ≠ [] := by
  rw [plainName]
  split
  · simp
  · next hkept =>
    have hlead := length_lead diskIdent
    intro hnil
    rcases List.take_eq_nil_iff.1 (List.append_eq_nil_iff.1 hnil).2 with h | h
    · omega
    · exact hkept h

/-! ## With a number -/

theorem length_toDigits_le (hn : n < 2 ^ 32) : (Nat.toDigits 10 n).length ≤ 10 :=
  (Nat.length_toDigits_le_iff (by decide) (by decide)).2 (by omega)

/-- A candidate is made without a panic. -/
theorem candidate_eq (hbase : ∀ c ∈ base, isHostChar c = true) (hn : n < 2 ^ 32) : candidate base n = some (numbered base n) := by
  rw [candidate, numbered]
  split
  · rfl
  · have hsuffix : (utf8 ('-' :: Nat.toDigits 10 n)).length = (Nat.toDigits 10 n).length + 1 := by
      rw [length_utf8 (isHostChar_digits n), List.length_cons]
    have hdigits := length_toDigits_le hn
    dsimp only
    rw [hsuffix, if_neg (by omega), length_utf8 hbase, sliceTo_of_isHostChar hbase (Nat.min_le_left _ _), Option.map_some,
      List.take_eq_take_min (i := 62 - (Nat.toDigits 10 n).length), Nat.min_comm]
    congr 4
    omega

theorem isHostChar_numbered (hbase : ∀ c ∈ base, isHostChar c = true) : ∀ c ∈ numbered base n, isHostChar c = true := by
  rw [numbered]
  split
  · exact hbase
  · intro c hc
    rcases List.mem_append.1 hc with hc | hc
    · exact hbase c (List.mem_of_mem_take hc)
    · exact isHostChar_digits n c hc

theorem length_numbered (hbase : base.length ≤ 63) (hn : n < 2 ^ 32) : (numbered base n).length ≤ 63 := by
  have hdigits := length_toDigits_le hn
  rw [numbered]
  split
  · exact hbase
  · rw [List.length_append, List.length_take, List.length_cons]
    omega

/-- The number of a host name is behind its last hyphen. -/
theorem takeWhile_numbered (base : List Char) (hn : n ≠ 0) : ((numbered base n).reverse.takeWhile Char.isDigit).reverse = Nat.toDigits 10 n := by
  have hdigits : ∀ c ∈ (Nat.toDigits 10 n).reverse, c.isDigit = true := fun c hc =>
    Nat.isDigit_of_mem_toDigits (by decide) (by decide) (List.mem_reverse.1 hc)
  have hhyphen : ¬ '-'.isDigit = true := by decide
  rw [numbered, if_neg hn, List.reverse_append, List.reverse_cons, List.append_assoc, List.singleton_append,
    List.takeWhile_append_of_pos hdigits, List.takeWhile_cons_of_neg hhyphen, List.append_nil, List.reverse_reverse]

/-- Different numbers make different host names. -/
theorem numbered_injective {m : Nat} (hm : m ≠ 0) (hn : n ≠ 0) (h : numbered base m = numbered base n) : m = n := by
  have hdigits : Nat.toDigits 10 m = Nat.toDigits 10 n := by
    rw [← takeWhile_numbered base hm, ← takeWhile_numbered base hn, h]
  have hvalue := congrArg (Nat.ofDigitChars 10 · 0) hdigits
  simpa only [Nat.ofDigitChars_ten_toDigits] using hvalue

/-- The loop is a search for a name that is not in the set. -/
def freeName (base : List Char) (active : Finset (List Char)) (n : Nat) : Option (Except Panic (List Char)) :=
  match candidate base n with
  | none => some (.error .slice)
  | some candidate => if localName candidate ∉ active then some (.ok candidate) else none

theorem pickUniqueHostname_eq : pickUniqueHostname base active = Loop.search (freeName base active) (2 ^ 32) (.error .overflow) := by
  funext n
  rw [pickUniqueHostname, Loop.search, freeName]
  cases candidate base n with
  | none => rfl
  | some candidate =>
    dsimp only
    split <;> rfl

theorem freeName_eq (hbase : ∀ c ∈ base, isHostChar c = true) (hn : n < 2 ^ 32) :
    freeName base active n = if localName (numbered base n) ∉ active then some (.ok (numbered base n)) else none := by
  rw [freeName, candidate_eq hbase hn]

/-- The host name that is picked has the first number with which it is free. -/
theorem endsIn_pick_iff (hbase : ∀ c ∈ base, isHostChar c = true) : Loop.EndsIn (pickUniqueHostname base active) 0 (.ok name) ↔
    ∃ n < 2 ^ 32, name = numbered base n ∧ localName name ∉ active ∧ ∀ m < n, localName (numbered base m) ∈ active := by
  rw [pickUniqueHostname_eq, Loop.endsIn_search_iff (by decide)]
  constructor
  · rintro (⟨n, hn, hname, hmin⟩ | ⟨-, hname⟩)
    · rw [freeName_eq hbase hn, Option.ite_none_right_eq_some] at hname
      obtain ⟨hfree, hname⟩ := hname
      obtain rfl := Except.ok.inj (Option.some.inj hname)
      refine ⟨n, hn, rfl, hfree, fun m hm => ?_⟩
      have htaken := hmin m hm
      rw [freeName_eq hbase (Nat.lt_trans hm hn)] at htaken
      by_contra hfree
      rw [if_pos hfree] at htaken
      cases htaken
    · cases hname
  · rintro ⟨n, hn, rfl, hfree, hmin⟩
    refine .inl ⟨n, hn, ?_, fun m hm => ?_⟩
    · rw [freeName_eq hbase hn, if_pos hfree]
    · rw [freeName_eq hbase (Nat.lt_trans hm hn), if_neg (not_not.2 (hmin m hm))]

/-- A host name is picked if one of the names is free. -/
theorem exists_pick (hbase : ∀ c ∈ base, isHostChar c = true) (h : ∃ n < 2 ^ 32, localName (numbered base n) ∉ active) :
    ∃ name, Loop.EndsIn (pickUniqueHostname base active) 0 (.ok name) := by
  obtain ⟨hlt, hfree⟩ := Nat.find_spec h
  refine ⟨numbered base (Nat.find h), (endsIn_pick_iff hbase).2 ⟨Nat.find h, hlt, rfl, hfree, fun m hm => ?_⟩⟩
  by_contra hm'
  exact Nat.find_min h hm ⟨Nat.lt_trans hm hlt, hm'⟩

theorem numbered_ne_nil (hbase : base ≠ []) : numbered base n ≠ [] := by
  rw [numbered]
  split
  · exact hbase
  · exact List.append_ne_nil_of_right_ne_nil _ (List.cons_ne_nil _ _)

/-- With fewer active hosts than numbers, one of the names is free. -/
theorem exists_free_numbered (base : List Char) (h : active.card < 2 ^ 32 - 1) : ∃ n < 2 ^ 32, localName (numbered base n) ∉ active := by
  have hinj : ∀ m n, 1 ≤ m → 1 ≤ n → localName (numbered base m) = localName (numbered base n) → m = n := fun m n hm hn heq =>
    numbered_injective (by omega) (by omega) (List.append_cancel_right heq)
  exact Loop.exists_free hinj h

/-- With fewer active hosts than numbers, a host name is picked without a panic: a label of host names that no other virtual
machine has. -/
theorem pickUniqueHostname_free (diskIdent : List Char) (active : Finset (List Char)) (h : active.card < 2 ^ 32 - 1) :
    ∃ base name, hostnameFromDiskIdent diskIdent = some base ∧ Loop.EndsIn (pickUniqueHostname base active) 0 (.ok name) ∧
      1 ≤ name.length ∧ name.length ≤ 63 ∧ (∀ c ∈ name, isHostChar c = true) ∧ localName name ∉ active := by
  have hbase : ∀ c ∈ plainName diskIdent, isHostChar c = true := isHostChar_plainName
  obtain ⟨name, hname⟩ := exists_pick hbase (exists_free_numbered _ h)
  refine ⟨plainName diskIdent, name, hostnameFromDiskIdent_eq diskIdent, hname, ?_⟩
  obtain ⟨n, hn, rfl, hfree, -⟩ := (endsIn_pick_iff hbase).1 hname
  exact ⟨List.length_pos_iff.2 (numbered_ne_nil (plainName_ne_nil diskIdent)), length_numbered (length_plainName diskIdent) hn,
    isHostChar_numbered hbase, hfree⟩

theorem pickUniqueHostname_free_disk : ∃ base name, hostnameFromDiskIdent "/dev/disk4s1".toList = some base ∧
    Loop.EndsIn (pickUniqueHostname base {localName "disk4s1".toList}) 0 (.ok name) ∧ 1 ≤ name.length ∧ name.length ≤ 63 ∧
      (∀ c ∈ name, isHostChar c = true) ∧ localName name ∉ ({localName "disk4s1".toList} : Finset (List Char)) :=
  pickUniqueHostname_free "/dev/disk4s1".toList {localName "disk4s1".toList} (by rw [Finset.card_singleton]; decide)

/-! ## Hyphens -/

theorem head?_plainName (diskIdent : List Char) : (plainName diskIdent).head? ≠ some '-' ↔
    lead diskIdent ≠ [] ∨ (kept diskIdent).head? ≠ some '-' := by
  rw [plainName]
  rcases lead_cases diskIdent with h | h | h
  · have hroom : 63 - ([] : List Char).length = 62 + 1 := rfl
    rw [fitting, h, hroom, List.nil_append, or_iff_right (not_not.2 rfl)]
    cases hkept : kept diskIdent with
    | nil => decide
    | cons c rest => rfl
  · rw [h]
    exact iff_of_true (by simp) (.inl (by decide))
  · rw [h]
    exact iff_of_true (by simp) (.inl (by decide))

theorem getLast?_plainName (diskIdent : List Char) :
    (plainName diskIdent).getLast? ≠ some '-' ↔ (fitting diskIdent).getLast? ≠ some '-' := by
  rw [plainName]
  split
  · next hkept =>
    have hdisk : "disk".toList ≠ [] := by decide
    rw [List.getLast?_append_of_ne_nil _ hdisk, fitting, hkept, List.take_nil]
    decide
  · next hkept =>
    have hlead := length_lead diskIdent
    have hne : fitting diskIdent ≠ [] := by
      intro hnil
      rcases List.take_eq_nil_iff.1 hnil with h | h
      · omega
      · exact hkept h
    rw [List.getLast?_append_of_ne_nil _ hne]

/-- A number does not change the start of the host name. -/
theorem head?_numbered (hbase : base ≠ []) (hn : n < 2 ^ 32) : (numbered base n).head? = base.head? := by
  have hdigits := length_toDigits_le hn
  rw [numbered]
  split
  · rfl
  · obtain ⟨k, hk⟩ : ∃ k, 62 - (Nat.toDigits 10 n).length = k + 1 := ⟨61 - (Nat.toDigits 10 n).length, by omega⟩
    cases base with
    | nil => exact absurd rfl hbase
    | cons c rest => rw [hk, List.take_succ_cons, List.cons_append, List.head?_cons, List.head?_cons]

/-- A number is at the end of the host name. -/
theorem getLast?_numbered (hn : n ≠ 0) : (numbered base n).getLast? ≠ some '-' := by
  rw [numbered, if_neg hn, List.getLast?_append_of_ne_nil _ (List.cons_ne_nil _ _), List.getLast?_cons_of_ne_nil Nat.toDigits_ne_nil]
  intro hlast
  have hdigit := Nat.isDigit_of_mem_toDigits (by decide) (by decide) (List.mem_of_mem_getLast? hlast)
  exact absurd hdigit (by decide)

/-- The host name has no hyphen at its ends exactly when the name of the disk puts none at its start, where it is not behind a
prefix, and none at its end, where no number has to be appended; or when all names are taken. -/
theorem hyphenLaw_iff (diskIdent : List Char) (active : Finset (List Char)) : HyphenLaw diskIdent active ↔
    (∀ n < 2 ^ 32, localName (numbered (plainName diskIdent) n) ∈ active) ∨
      (lead diskIdent ≠ [] ∨ (kept diskIdent).head? ≠ some '-') ∧
        ((fitting diskIdent).getLast? ≠ some '-' ∨ localName (plainName diskIdent) ∈ active) := by
  have hbase : ∀ c ∈ plainName diskIdent, isHostChar c = true := isHostChar_plainName
  have hne := plainName_ne_nil diskIdent
  rw [← head?_plainName, ← getLast?_plainName]
  constructor
  · intro h
    refine or_iff_not_imp_left.2 fun hall => ?_
    obtain ⟨name, hname⟩ := exists_pick hbase (by simpa using hall)
    obtain ⟨hhead, hlast⟩ := h _ _ (hostnameFromDiskIdent_eq diskIdent) hname
    obtain ⟨n, hn, rfl, -, hmin⟩ := (endsIn_pick_iff hbase).1 hname
    rw [head?_numbered hne hn] at hhead
    refine ⟨hhead, ?_⟩
    rcases Nat.eq_zero_or_pos n with rfl | hpos
    · exact .inl hlast
    · exact .inr (hmin 0 hpos)
  · intro h base name hbase' hname
    obtain rfl := Option.some.inj ((hostnameFromDiskIdent_eq diskIdent).symm.trans hbase')
    obtain ⟨n, hn, rfl, hfree, -⟩ := (endsIn_pick_iff hbase).1 hname
    rcases h with hall | ⟨hhead, hlast⟩
    · exact absurd (hall n hn) hfree
    · rw [head?_numbered hne hn]
      refine ⟨hhead, ?_⟩
      by_cases hn0 : n = 0
      · subst hn0
        exact hlast.resolve_right hfree
      · exact getLast?_numbered hn0

/-- An image file whose name starts with a dot. -/
theorem hyphenLaw_false : ¬ ∀ diskIdent active, HyphenLaw diskIdent active := by
  intro h
  have hlaw := h "/images/.backup.img".toList ∅
  have hbase : hostnameFromDiskIdent "/images/.backup.img".toList = some "-backup-img".toList := by decide
  have hname : Loop.EndsIn (pickUniqueHostname "-backup-img".toList ∅) 0 (.ok "-backup-img".toList) := .of_inr rfl
  exact (hlaw _ _ hbase hname).1 (by decide)

end VmHostname

end Anylinuxfs
