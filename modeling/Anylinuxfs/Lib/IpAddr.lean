import Mathlib.Algebra.GroupWithZero.Nat
import Mathlib.Data.List.Basic
import Mathlib.Data.List.Induction

/-!
# The text of network addresses

How the Rust standard library writes an IP address (`Display`) and reads one (`FromStr`): a parser takes what it can from the
front of a text and leaves the rest. What is written is read back (`parse_toText`).
-/

namespace IpText

/-- `Ipv4Addr`. -/
structure Ipv4Addr where
  (a b c d : UInt8)
  deriving DecidableEq, Repr

/-- `Ipv6Addr`, as its segments. -/
structure Ipv6Addr where
  segments : List UInt16
  length_eq : segments.length = 8
  deriving DecidableEq, Repr

/-- `IpAddr`. -/
inductive IpAddr where
  | v4 (ip : Ipv4Addr)
  | v6 (ip : Ipv6Addr)
  deriving DecidableEq, Repr

/-! ## Writing -/

/-- `Ipv4Addr::fmt`. -/
def Ipv4Addr.toText (ip : Ipv4Addr) : List Char :=
  Nat.toDigits 10 ip.a.toNat ++ '.' :: Nat.toDigits 10 ip.b.toNat ++ '.' :: Nat.toDigits 10 ip.c.toNat ++
    '.' :: Nat.toDigits 10 ip.d.toNat

/-- Segments of an address that are zero. -/
structure Span where
  start : Nat := 0
  len : Nat := 0

/-- The current span with one more segment. -/
def Span.extend (current : Span) (i : Nat) : Span where
  start := if current.len = 0 then i else current.start
  len := current.len + 1

/-- A turn of the loop that finds the longest span, which goes on with the longest and the current one. -/
def Span.step (spans : Span × Span) (i : Nat) (segment : UInt16) : Span × Span :=
  if segment = 0 then
    (if (spans.2.extend i).len > spans.1.len then spans.2.extend i else spans.1, spans.2.extend i)
  else (spans.1, {})

/-- The longest span of zeros, the first of several. -/
def zeroes (segments : List UInt16) : Span := (segments.zipIdx.foldl (fun spans (segment, i) => Span.step spans i segment) ({}, {})).1

/-- `fmt_subslice`: segments between colons. -/
def fmtSubslice : List UInt16 → List Char
  | [] => []
  | first :: tail => Nat.toDigits 16 first.toNat ++ tail.flatMap fun segment => ':' :: Nat.toDigits 16 segment.toNat

/-- Two bytes of a segment. -/
def octets (segment : UInt16) : UInt8 × UInt8 := (UInt8.ofNat (segment.toNat / 256), UInt8.ofNat (segment.toNat % 256))

/-- `u16::from_be_bytes`. -/
def fromBeBytes (high low : UInt8) : UInt16 := UInt16.ofNat (high.toNat * 256 + low.toNat)

/-- `Ipv6Addr::to_ipv4_mapped`. -/
def Ipv6Addr.toIpv4Mapped (ip : Ipv6Addr) : Option Ipv4Addr :=
  match ip.segments with
  | [0, 0, 0, 0, 0, 0xffff, ab, cd] => some ⟨(octets ab).1, (octets ab).2, (octets cd).1, (octets cd).2⟩
  | _ => none

/-- `Ipv6Addr::fmt`. -/
def Ipv6Addr.toText (ip : Ipv6Addr) : List Char :=
  match ip.toIpv4Mapped with
  | some ipv4 => "::ffff:".toList ++ ipv4.toText
  | none =>
    let span := zeroes ip.segments
    if span.len > 1 then
      fmtSubslice (ip.segments.take span.start) ++ "::".toList ++ fmtSubslice (ip.segments.drop (span.start + span.len))
    else fmtSubslice ip.segments

/-- `IpAddr::fmt`. -/
def IpAddr.toText : IpAddr → List Char
  | .v4 ip => ip.toText
  | .v6 ip => ip.toText

/-! ## Reading -/

/-- `char::to_digit`. -/
def toDigit (radix : Nat) (c : Char) : Option Nat :=
  (if c.isDigit then some (c.toNat - '0'.toNat)
    else if c.isLower then some (c.toNat - 'a'.toNat + 10)
    else if c.isUpper then some (c.toNat - 'A'.toNat + 10)
    else none).filter (· < radix)

/-- `read_number`, of a type with the values below `bound`. -/
def readNumber (radix maxDigits : Nat) (allowZeroPrefix : Bool) (bound : Nat) (s : List Char) : Option (Nat × List Char) :=
  let digits := s.takeWhile fun c => (toDigit radix c).isSome
  let result := digits.foldl (fun n c => n * radix + (toDigit radix c).getD 0) 0
  if digits.length > maxDigits then none
  else if digits.length = 0 then none
  else if !allowZeroPrefix && s.head? = some '0' && digits.length > 1 then none
  else if result < bound then some (result, s.dropWhile fun c => (toDigit radix c).isSome)
  else none

/-- `read_given_char`. -/
def readGivenChar (target : Char) : List Char → Option (List Char)
  | [] => none
  | c :: rest => if c = target then some rest else none

/-- `read_separator`. -/
def readSeparator {α : Type} (sep : Char) (index : Nat) (inner : List Char → Option (α × List Char)) (s : List Char) :
    Option (α × List Char) :=
  if index > 0 then (readGivenChar sep s).bind inner else inner s

/-- An octet of an IPv4 address. -/
def readOctet (s : List Char) : Option (UInt8 × List Char) :=
  (readNumber 10 3 false 256 s).map fun (n, rest) => (UInt8.ofNat n, rest)

/-- `read_ipv4_addr`. -/
def readIpv4Addr (s : List Char) : Option (Ipv4Addr × List Char) := do
  let (a, s) ← readSeparator '.' 0 readOctet s
  let (b, s) ← readSeparator '.' 1 readOctet s
  let (c, s) ← readSeparator '.' 2 readOctet s
  let (d, s) ← readSeparator '.' 3 readOctet s
  pure (⟨a, b, c, d⟩, s)

/-- A group of an IPv6 address. -/
def readGroup (s : List Char) : Option (UInt16 × List Char) :=
  (readNumber 16 4 true 65536 s).map fun (n, rest) => (UInt16.ofNat n, rest)

/-- What `read_groups` leaves: the groups, whether the last two are an IPv4 address, and the rest. -/
structure Groups where
  groups : List UInt16
  ipv4 : Bool
  rest : List Char

/-- `read_groups` from the group `i` on, with as many to be read at most. -/
def readGroups : Nat → Nat → List Char → Groups
  | 0, _, s => ⟨[], false, s⟩
  | left + 1, i, s =>
    -- "There must be at least two groups left."
    match if left > 0 then readSeparator ':' i readIpv4Addr s else none with
    | some (v4, rest) => ⟨[fromBeBytes v4.a v4.b, fromBeBytes v4.c v4.d], true, rest⟩
    | none =>
      match readSeparator ':' i readGroup s with
      | some (group, rest) =>
        let next := readGroups left (i + 1) rest
        ⟨group :: next.groups, next.ipv4, next.rest⟩
      | none => ⟨[], false, s⟩

/-- The array of eight zeros into whose beginning the head and into whose end the tail is copied. -/
def Ipv6Addr.ofGroups (head tail : List UInt16) : Ipv6Addr where
  segments := (List.range 8).map fun i => if 8 - tail.length ≤ i then tail.getD (i - (8 - tail.length)) 0 else head.getD i 0
  length_eq := by rw [List.length_map, List.length_range]

/-- `read_ipv6_addr`. -/
def readIpv6Addr (s : List Char) : Option (Ipv6Addr × List Char) :=
  let head := readGroups 8 0 s
  if head.groups.length = 8 then some (.ofGroups head.groups [], head.rest)
  -- "IPv4 part is not allowed before `::`"
  else if head.ipv4 then none
  else do
    let s ← readGivenChar ':' head.rest
    let s ← readGivenChar ':' s
    let tail := readGroups (8 - (head.groups.length + 1)) 0 s
    pure (.ofGroups head.groups tail.groups, tail.rest)

/-- `read_ip_addr`. -/
def readIpAddr (s : List Char) : Option (IpAddr × List Char) :=
  match readIpv4Addr s with
  | some (ip, rest) => some (.v4 ip, rest)
  | none => (readIpv6Addr s).map fun (ip, rest) => (.v6 ip, rest)

/-- `IpAddr::from_str`: the whole text is read. -/
def parse (s : List Char) : Option IpAddr := do
  let (ip, rest) ← readIpAddr s
  if rest = [] then some ip else none

/-! ## Numbers -/

variable {b n bound maxDigits left i : Nat} {rest s : List Char} {allowZeroPrefix : Bool}

/-- The character of a digit is read as the digit. -/
theorem toDigit_digitChar (hb : b ≤ 16) (hn : n < b) : toDigit b n.digitChar = some n := by
  have hvalue : ∀ m < 16, toDigit 16 m.digitChar = some m := by decide
  obtain ⟨d, hd⟩ : ∃ d, (if n.digitChar.isDigit then some (n.digitChar.toNat - '0'.toNat)
      else if n.digitChar.isLower then some (n.digitChar.toNat - 'a'.toNat + 10)
      else if n.digitChar.isUpper then some (n.digitChar.toNat - 'A'.toNat + 10) else none) = d := ⟨_, rfl⟩
  have hsixteen := hvalue n (Nat.lt_of_lt_of_le hn hb)
  rw [toDigit, hd] at hsixteen ⊢
  obtain ⟨rfl, -⟩ := Option.filter_eq_some_iff.1 hsixteen
  exact Option.filter_eq_some_iff.2 ⟨rfl, decide_eq_true hn⟩

/-- The digits of a number, by its last digit. -/
theorem toDigits_induction {motive : Nat → Prop} (hb : 1 < b) (lt : ∀ n < b, motive n)
    (ge : ∀ n, b ≤ n → motive (n / b) → motive n) (n : Nat) : motive n := by
  induction n using Nat.strongRecOn with
  | ind n ih =>
    by_cases hn : n < b
    · exact lt n hn
    · exact ge n (Nat.le_of_not_lt hn) (ih _ (Nat.div_lt_self (by omega) hb))

/-- The text of a number has digits only. -/
theorem isSome_of_mem_toDigits (hb : 1 < b) (hb' : b ≤ 16) : ∀ c ∈ Nat.toDigits b n, (toDigit b c).isSome = true := by
  induction n using toDigits_induction hb with
  | lt n hn =>
    rw [Nat.toDigits_of_lt_base hn]
    intro c hc
    rw [List.mem_singleton.1 hc, toDigit_digitChar hb' hn]
    rfl
  | ge n hn ih =>
    rw [Nat.toDigits_of_base_le hb hn]
    intro c hc
    rcases List.mem_append.1 hc with hc | hc
    · exact ih c hc
    · rw [List.mem_singleton.1 hc, toDigit_digitChar hb' (Nat.mod_lt n (by omega))]
      rfl

/-- The digits of a number add up to it. -/
theorem foldl_toDigits (hb : 1 < b) (hb' : b ≤ 16) :
    (Nat.toDigits b n).foldl (fun n c => n * b + (toDigit b c).getD 0) 0 = n := by
  induction n using toDigits_induction hb with
  | lt n hn =>
    rw [Nat.toDigits_of_lt_base hn, List.foldl_cons, List.foldl_nil, toDigit_digitChar hb' hn, Option.getD_some, Nat.zero_mul,
      Nat.zero_add]
  | ge n hn ih =>
    rw [Nat.toDigits_of_base_le hb hn, List.foldl_append, ih, List.foldl_cons, List.foldl_nil,
      toDigit_digitChar hb' (Nat.mod_lt n (by omega))]
    exact Nat.div_add_mod' n b

/-- Only zero begins with a zero. -/
theorem eq_zero_of_head?_toDigits (hb : 1 < b) (h : (Nat.toDigits b n).head? = some '0') : n = 0 := by
  induction n using toDigits_induction hb with
  | lt n hn =>
    rw [Nat.toDigits_of_lt_base hn, List.head?_cons] at h
    exact Nat.digitChar_eq_zero.1 (Option.some.inj h)
  | ge n hn ih =>
    rw [Nat.toDigits_of_base_le hb hn, List.head?_append_of_ne_nil _ Nat.toDigits_ne_nil] at h
    have hpos : 0 < n / b := Nat.div_pos hn (by omega)
    exact absurd (ih h) (Nat.ne_of_gt hpos)

/-- The rest starts with no digit. -/
def NoDigit (b : Nat) (rest : List Char) : Prop := ∀ c ∈ rest.head?, toDigit b c = none

/-- A number is read up to its last digit. -/
theorem readNumber_toDigits (hb : 1 < b) (hb' : b ≤ 16) (hmax : 0 < maxDigits) (hlen : n < b ^ maxDigits) (hbound : n < bound)
    (hrest : NoDigit b rest) : readNumber b maxDigits allowZeroPrefix bound (Nat.toDigits b n ++ rest) = some (n, rest) := by
  have hall := isSome_of_mem_toDigits (n := n) hb hb'
  have hlength : (Nat.toDigits b n).length ≤ maxDigits := (Nat.length_toDigits_le_iff hb hmax).2 hlen
  have hpos : 0 < (Nat.toDigits b n).length := Nat.length_toDigits_pos
  have htake : rest.takeWhile (fun c => (toDigit b c).isSome) = [] ∧ rest.dropWhile (fun c => (toDigit b c).isSome) = rest := by
    cases rest with
    | nil => exact ⟨rfl, rfl⟩
    | cons c rest =>
      have hc : ¬ (toDigit b c).isSome = true := by
        rw [hrest c rfl]
        exact Bool.false_ne_true
      exact ⟨List.takeWhile_cons_of_neg hc, List.dropWhile_cons_of_neg hc⟩
  have hzero : ¬ (!allowZeroPrefix && (Nat.toDigits b n ++ rest).head? = some '0' && (Nat.toDigits b n).length > 1) = true := by
    intro h
    rw [Bool.and_eq_true, Bool.and_eq_true, decide_eq_true_eq, decide_eq_true_eq, List.head?_append_of_ne_nil _ Nat.toDigits_ne_nil] at h
    obtain ⟨⟨-, hhead⟩, hlong⟩ := h
    rw [eq_zero_of_head?_toDigits hb hhead, Nat.toDigits_zero] at hlong
    exact absurd hlong (by decide)
  rw [readNumber, List.takeWhile_append_of_pos hall, List.dropWhile_append_of_pos hall, htake.1, htake.2, List.append_nil, foldl_toDigits hb hb',
    if_neg (Nat.not_lt.2 hlength), if_neg (Nat.ne_of_gt hpos), if_neg hzero, if_pos hbound]

/-- A text that starts with no digit has no number in front. -/
theorem readNumber_of_noDigit (h : NoDigit b s) : readNumber b maxDigits allowZeroPrefix bound s = none := by
  have htake : s.takeWhile (fun c => (toDigit b c).isSome) = [] := by
    cases s with
    | nil => rfl
    | cons c s =>
      refine List.takeWhile_cons_of_neg ?_
      rw [h c rfl]
      exact Bool.false_ne_true
  rw [readNumber, htake]
  rfl

/-- The empty text does not begin with a digit. -/
theorem noDigit_nil (b : Nat) : NoDigit b [] := nofun

/-- A text does not begin with a digit if its first character is none. -/
theorem noDigit_cons {c : Char} (h : toDigit b c = none) (rest : List Char) : NoDigit b (c :: rest) := fun _ hc =>
  Option.some.inj hc ▸ h

/-- An octet is read from its text, up to what is no digit. -/
theorem readOctet_append (octet : UInt8) (h : NoDigit 10 rest) : readOctet (Nat.toDigits 10 octet.toNat ++ rest) = some (octet, rest) := by
  have hlt : octet.toNat < 256 := octet.toNat_lt
  rw [readOctet, readNumber_toDigits (by decide) (by decide) (by decide) (by omega) hlt h, Option.map_some]
  exact congrArg (fun octet => some (octet, rest)) UInt8.ofNat_toNat

/-- A group is read from its text, up to what is no digit. -/
theorem readGroup_append (group : UInt16) (h : NoDigit 16 rest) :
    readGroup (Nat.toDigits 16 group.toNat ++ rest) = some (group, rest) := by
  have hlt : group.toNat < 65536 := group.toNat_lt
  rw [readGroup, readNumber_toDigits (by decide) (by decide) (by decide) (by omega) hlt h, Option.map_some]
  exact congrArg (fun group => some (group, rest)) UInt16.ofNat_toNat

/-- No group is read where there is no digit. -/
theorem readGroup_of_noDigit (h : NoDigit 16 s) : readGroup s = none := by
  rw [readGroup, readNumber_of_noDigit h, Option.map_none]

/-! ## Addresses of four bytes -/

/-- Before the first part there is no separator. -/
theorem readSeparator_zero {α : Type} (sep : Char) (inner : List Char → Option (α × List Char)) (s : List Char) :
    readSeparator sep 0 inner s = inner s := rfl

/-- Before a later part, the separator is read. -/
theorem readSeparator_cons {α : Type} (sep : Char) (inner : List Char → Option (α × List Char)) (s : List Char) (hi : 0 < i) :
    readSeparator sep i inner (sep :: s) = inner s := by
  rw [readSeparator, if_pos hi, readGivenChar, if_pos rfl, Option.bind_some]

/-- An IPv4 address is read from its text, up to what is no digit. -/
theorem readIpv4Addr_append (ip : Ipv4Addr) (h : NoDigit 10 rest) : readIpv4Addr (ip.toText ++ rest) = some (ip, rest) := by
  have hdot : ∀ s, NoDigit 10 ('.' :: s) := noDigit_cons (by decide)
  simp (disch := decide) only [Ipv4Addr.toText, List.append_assoc, List.cons_append, readIpv4Addr, readSeparator_zero,
    readSeparator_cons, readOctet_append _ (hdot _), readOctet_append _ h, Option.bind_eq_bind, Option.bind_some, Option.pure_def]

/-- No IPv4 address is read where there is no digit. -/
theorem readIpv4Addr_of_noDigit (h : NoDigit 10 s) : readIpv4Addr s = none := by
  rw [readIpv4Addr, readSeparator_zero, readOctet, readNumber_of_noDigit h]
  rfl

/-- What is left of a text after a number is the end of it. -/
theorem suffix_of_readOctet {octet : UInt8} (h : readOctet s = some (octet, rest)) : rest <:+ s := by
  rw [readOctet, readNumber] at h
  obtain ⟨⟨n, rest'⟩, hnumber, heq⟩ := Option.map_eq_some_iff.1 h
  obtain ⟨-, rfl⟩ := Prod.mk.inj heq
  split at hnumber
  · cases hnumber
  split at hnumber
  · cases hnumber
  split at hnumber
  · cases hnumber
  split at hnumber
  · obtain ⟨-, rfl⟩ := Prod.mk.inj (Option.some.inj hnumber)
    exact List.dropWhile_suffix _
  · cases hnumber

/-- Without a dot there is no such address. -/
theorem readIpv4Addr_of_notMem (h : '.' ∉ s) : readIpv4Addr s = none := by
  rw [readIpv4Addr, readSeparator_zero]
  cases hoctet : readOctet s with
  | none => rfl
  | some p =>
    obtain ⟨octet, rest⟩ := p
    have hrest : '.' ∉ rest := fun hmem => h ((suffix_of_readOctet hoctet).subset hmem)
    have hgiven : readGivenChar '.' rest = none := by
      cases rest with
      | nil => rfl
      | cons c rest =>
        have hne : c ≠ '.' := fun heq => hrest (heq ▸ List.mem_cons_self)
        exact if_neg hne
    have hseparator : readSeparator '.' 1 readOctet rest = none := by
      rw [readSeparator, if_pos Nat.one_pos, hgiven, Option.bind_none]
    simp only [Option.bind_eq_bind, Option.bind_some, hseparator, Option.bind_none]

/-! ## Addresses of eight segments -/

/-- No IPv4 address is read from a text without dots. -/
theorem readSeparator_ipv4_of_notMem (h : '.' ∉ s) : readSeparator ':' i readIpv4Addr s = none := by
  rw [readSeparator]
  split
  · cases s with
    | nil => rfl
    | cons c s =>
      rw [readGivenChar]
      split
      · exact readIpv4Addr_of_notMem fun hmem => h (List.mem_cons_of_mem c hmem)
      · rfl
  · exact readIpv4Addr_of_notMem h

/-- No group follows: the text ends or a double colon stands there. -/
def Stops (rest : List Char) : Prop := rest = [] ∨ ∃ rest', rest = ':' :: ':' :: rest'

/-- Where the groups stop there is no digit. -/
theorem Stops.noDigit (h : Stops rest) (b : Nat) : NoDigit b rest := by
  rcases h with rfl | ⟨rest', rfl⟩
  · exact noDigit_nil b
  · exact noDigit_cons rfl _

/-- Where the groups stop no further one is read. -/
theorem Stops.readSeparator (h : Stops rest) : readSeparator ':' i readGroup rest = none := by
  rw [IpText.readSeparator]
  split
  · rcases h with rfl | ⟨rest', rfl⟩
    · rfl
    · exact readGroup_of_noDigit (noDigit_cons rfl _)
  · exact readGroup_of_noDigit (h.noDigit 16)

/-- No groups are read where they stop. -/
theorem readGroups_of_stops (h : Stops rest) (hdot : '.' ∉ rest) (left i : Nat) : readGroups left i rest = ⟨[], false, rest⟩ := by
  cases left with
  | zero => rfl
  | succ left =>
    rw [readGroups, readSeparator_ipv4_of_notMem hdot, ite_self, h.readSeparator]

/-- The text of a group has no dot. -/
theorem dot_notMem_toDigits (n : Nat) : '.' ∉ Nat.toDigits 16 n := fun hmem =>
  absurd (isSome_of_mem_toDigits (by decide) (by decide) _ hmem) (by decide)

/-- The texts of groups behind colons have no dot. -/
theorem dot_notMem_flatMap (groups : List UInt16) : '.' ∉ groups.flatMap fun group => ':' :: Nat.toDigits 16 group.toNat := by
  intro hmem
  obtain ⟨group, -, hmem⟩ := List.mem_flatMap.1 hmem
  rcases List.mem_cons.1 hmem with heq | hmem
  · exact absurd heq (by decide)
  · exact dot_notMem_toDigits _ hmem

/-- The texts of groups between colons have no dot. -/
theorem dot_notMem_fmtSubslice (groups : List UInt16) : '.' ∉ fmtSubslice groups := by
  cases groups with
  | nil => exact List.not_mem_nil
  | cons group groups => exact fun hmem => (List.mem_append.1 hmem).elim (dot_notMem_toDigits _) (dot_notMem_flatMap groups)

/-- A group and what is read behind it. -/
theorem readGroups_succ {group : UInt16} {s' : List Char} (hdot : '.' ∉ s) (h : readSeparator ':' i readGroup s = some (group, s')) :
    readGroups (left + 1) i s =
      ⟨group :: (readGroups left (i + 1) s').groups, (readGroups left (i + 1) s').ipv4, (readGroups left (i + 1) s').rest⟩ := by
  rw [readGroups, readSeparator_ipv4_of_notMem hdot, ite_self, h]

/-- Groups behind colons do not begin with a digit. -/
theorem noDigit_flatMap (groups : List UInt16) (hrest : Stops rest) :
    NoDigit 16 (groups.flatMap (fun group => ':' :: Nat.toDigits 16 group.toNat) ++ rest) := by
  cases groups with
  | nil => exact hrest.noDigit 16
  | cons group groups => exact noDigit_cons rfl _

/-- Groups behind colons are read back. -/
theorem readGroups_flatMap (groups : List UInt16) (hlen : groups.length ≤ left) (hi : 0 < i) (hrest : Stops rest) (hdot : '.' ∉ rest) :
    readGroups left i (groups.flatMap (fun group => ':' :: Nat.toDigits 16 group.toNat) ++ rest) = ⟨groups, false, rest⟩ := by
  induction groups generalizing left i with
  | nil => exact readGroups_of_stops hrest hdot left i
  | cons group groups ih =>
    obtain ⟨left, rfl⟩ : ∃ k, left = k + 1 := ⟨left - 1, by rw [List.length_cons] at hlen; omega⟩
    have hdots : '.' ∉ (group :: groups).flatMap (fun group => ':' :: Nat.toDigits 16 group.toNat) ++ rest := fun hmem =>
      (List.mem_append.1 hmem).elim (dot_notMem_flatMap _) hdot
    have hgroup : readSeparator ':' i readGroup ((group :: groups).flatMap (fun group => ':' :: Nat.toDigits 16 group.toNat) ++ rest) =
        some (group, groups.flatMap (fun group => ':' :: Nat.toDigits 16 group.toNat) ++ rest) := by
      rw [List.flatMap_cons, List.append_assoc, List.cons_append, readSeparator_cons _ _ _ hi]
      exact readGroup_append group (noDigit_flatMap groups hrest)
    rw [readGroups_succ hdots hgroup, ih (Nat.le_of_succ_le_succ hlen) (Nat.succ_pos i)]

/-- Segments between colons are read up to the end or a double colon. -/
theorem readGroups_fmtSubslice (groups : List UInt16) (hlen : groups.length ≤ left) (hrest : Stops rest) (hdot : '.' ∉ rest) :
    readGroups left 0 (fmtSubslice groups ++ rest) = ⟨groups, false, rest⟩ := by
  cases groups with
  | nil => exact readGroups_of_stops hrest hdot left 0
  | cons group groups =>
    obtain ⟨left, rfl⟩ : ∃ k, left = k + 1 := ⟨left - 1, by rw [List.length_cons] at hlen; omega⟩
    have hdots : '.' ∉ fmtSubslice (group :: groups) ++ rest := fun hmem =>
      (List.mem_append.1 hmem).elim (dot_notMem_fmtSubslice _) hdot
    have hgroup : readSeparator ':' 0 readGroup (fmtSubslice (group :: groups) ++ rest) =
        some (group, groups.flatMap (fun group => ':' :: Nat.toDigits 16 group.toNat) ++ rest) := by
      rw [readSeparator_zero, fmtSubslice, List.append_assoc]
      exact readGroup_append group (noDigit_flatMap groups hrest)
    rw [readGroups_succ hdots hgroup, readGroups_flatMap groups (Nat.le_of_succ_le_succ hlen) (Nat.succ_pos 0) hrest hdot]

/-- The groups before and behind a gap are filled up with zeros. -/
theorem segments_ofGroups {head tail : List UInt16} {k : Nat} (h : head.length + k + tail.length = 8) :
    (Ipv6Addr.ofGroups head tail).segments = head ++ List.replicate k 0 ++ tail := by
  refine List.ext_getElem ?_ fun i hi hi' => ?_
  · rw [Ipv6Addr.length_eq, List.length_append, List.length_append, List.length_replicate, h]
  have hlen : (head ++ List.replicate k (0 : UInt16)).length = 8 - tail.length := by
    rw [List.length_append, List.length_replicate]
    omega
  simp only [Ipv6Addr.ofGroups, List.getElem_map, List.getElem_range]
  by_cases htail : 8 - tail.length ≤ i
  · rw [if_pos htail, List.getElem_append_right (hlen ▸ htail)]
    simp only [hlen]
    exact (List.getElem_eq_getD 0).symm
  · rw [if_neg htail, List.getElem_append_left (hlen ▸ Nat.lt_of_not_le htail), List.getElem_append]
    split
    · exact (List.getElem_eq_getD 0).symm
    · next hhead => rw [List.getElem_replicate, List.getD_eq_getElem?_getD, List.getElem?_eq_none (Nat.le_of_not_lt hhead), Option.getD_none]

/-- An address is its segments. -/
theorem Ipv6Addr.ext_segments {ip ip' : Ipv6Addr} (h : ip.segments = ip'.segments) : ip = ip' := by
  cases ip
  cases ip'
  cases h
  rfl

/-- Eight groups are an address. -/
theorem readIpv6Addr_of_full {groups : List UInt16} (h : readGroups 8 0 s = ⟨groups, false, rest⟩) (hlen : groups.length = 8) :
    readIpv6Addr s = some (.ofGroups groups [], rest) := by
  rw [readIpv6Addr, h]
  exact if_pos hlen

/-- Fewer groups before two colons are the beginning of an address. -/
theorem readIpv6Addr_of_head {head : List UInt16} {s' : List Char} (h : readGroups 8 0 s = ⟨head, false, ':' :: ':' :: s'⟩)
    (hlen : head.length ≠ 8) :
    readIpv6Addr s = some (.ofGroups head (readGroups (8 - (head.length + 1)) 0 s').groups,
      (readGroups (8 - (head.length + 1)) 0 s').rest) := by
  rw [readIpv6Addr, h]
  exact (if_neg hlen).trans rfl

/-! ## The longest span of zeros -/

/-- The segments of a span are zero. -/
def Span.Zeros (segments : List UInt16) (span : Span) : Prop :=
  span.start + span.len ≤ segments.length ∧ ∀ i, span.start ≤ i → i < span.start + span.len → segments[i]? = some 0

/-- A span of zeros is one of a longer address too. -/
theorem Span.Zeros.concat {segments : List UInt16} {span : Span} (h : span.Zeros segments) (segment : UInt16) :
    span.Zeros (segments ++ [segment]) := by
  obtain ⟨hle, hzero⟩ := h
  refine ⟨by rw [List.length_append]; omega, fun i hstart hend => ?_⟩
  rw [List.getElem?_append_left (by omega)]
  exact hzero i hstart hend

/-- The empty span is one of zeros. -/
theorem Span.zeros_default (segments : List UInt16) : Span.Zeros segments {} := ⟨Nat.zero_le _, fun _ _ hend => absurd hend (Nat.not_lt_zero _)⟩

/-- Both spans are of zeros, and the current one reaches to the end. -/
structure SpansRight (segments : List UInt16) (spans : Span × Span) : Prop where
  longest : spans.1.Zeros segments
  current : spans.2.Zeros segments
  ends : spans.2.len ≠ 0 → spans.2.start + spans.2.len = segments.length

/-- One more zero makes the current span longer. -/
theorem SpansRight.extend {segments : List UInt16} {spans : Span × Span} (h : SpansRight segments spans) :
    (spans.2.extend segments.length).Zeros (segments ++ [0]) ∧
      (spans.2.extend segments.length).start + (spans.2.extend segments.length).len = segments.length + 1 := by
  obtain ⟨-, hcurrent, hends⟩ := h
  generalize spans.2 = current at hcurrent hends ⊢
  have hend : (current.extend segments.length).start + (current.extend segments.length).len = segments.length + 1 := by
    rw [Span.extend]
    dsimp only
    split
    · next hlen => rw [hlen]
    · next hlen => rw [← hends hlen, Nat.add_assoc]
  refine ⟨⟨Nat.le_of_eq (by rw [hend, List.length_append, List.length_singleton]), fun i hstart hlt => ?_⟩, hend⟩
  rw [hend] at hlt
  by_cases hi : i < segments.length
  · rw [List.getElem?_append_left hi]
    rw [Span.extend] at hstart
    dsimp only at hstart
    split at hstart
    · omega
    · next hlen => exact hcurrent.2 i hstart (hends hlen ▸ hi)
  · obtain rfl : i = segments.length := by omega
    exact List.getElem?_concat_length

/-- A turn of the loop keeps both spans right. -/
theorem SpansRight.step {segments : List UInt16} {spans : Span × Span} (h : SpansRight segments spans) (segment : UInt16) :
    SpansRight (segments ++ [segment]) (Span.step spans segments.length segment) := by
  rw [Span.step]
  by_cases hzero : segment = 0
  · subst hzero
    obtain ⟨hextend, hend⟩ := h.extend
    rw [if_pos rfl]
    refine ⟨?_, hextend, fun _ => by rw [hend, List.length_append, List.length_singleton]⟩
    dsimp only
    split
    · exact hextend
    · exact h.longest.concat 0
  · rw [if_neg hzero]
    exact ⟨h.longest.concat segment, Span.zeros_default _, fun hne => absurd rfl hne⟩

/-- Both spans are right when the loop ends. -/
theorem spansRight_foldl (segments : List UInt16) :
    SpansRight segments (segments.zipIdx.foldl (fun spans (segment, i) => Span.step spans i segment) ({}, {})) := by
  induction segments using List.reverseRecOn with
  | nil => exact ⟨Span.zeros_default [], Span.zeros_default [], fun hne => absurd rfl hne⟩
  | append_singleton segments segment ih =>
    rw [List.zipIdx_append, List.foldl_append, Nat.zero_add]
    exact ih.step segment

/-- The span is what is left out of an address. -/
theorem take_zeroes_drop (segments : List UInt16) :
    segments = segments.take (zeroes segments).start ++ List.replicate (zeroes segments).len 0 ++
      segments.drop ((zeroes segments).start + (zeroes segments).len) ∧
        (zeroes segments).start + (zeroes segments).len ≤ segments.length := by
  have hspan : (zeroes segments).Zeros segments := (spansRight_foldl segments).longest
  generalize zeroes segments = span at hspan ⊢
  obtain ⟨hle, hzero⟩ := hspan
  have hmiddle : (segments.drop span.start).take span.len = List.replicate span.len 0 := by
    refine List.ext_getElem? fun i => ?_
    by_cases hi : i < span.len
    · rw [List.getElem?_take_of_lt hi, List.getElem?_drop, hzero _ (Nat.le_add_right _ _) (by omega), List.getElem?_replicate, if_pos hi]
    · rw [List.getElem?_eq_none (by rw [List.length_take]; omega), List.getElem?_replicate, if_neg hi]
  refine ⟨?_, hle⟩
  rw [← hmiddle, ← List.take_add, List.take_append_drop]

/-! ## What is written is read -/

/-- The text of an address that is not mapped has no dot. -/
theorem dot_notMem_of_unmapped {ip : Ipv6Addr} (h : ip.toIpv4Mapped = none) : '.' ∉ ip.toText := by
  rw [Ipv6Addr.toText, h]
  dsimp only
  split
  · intro hmem
    rcases List.mem_append.1 hmem with hmem | hmem
    · rcases List.mem_append.1 hmem with hmem | hmem
      · exact dot_notMem_fmtSubslice _ hmem
      · exact absurd hmem (by decide)
    · exact dot_notMem_fmtSubslice _ hmem
  · exact dot_notMem_fmtSubslice _

/-- An address that is not mapped is read back. -/
theorem readIpv6Addr_unmapped {ip : Ipv6Addr} (h : ip.toIpv4Mapped = none) : readIpv6Addr ip.toText = some (ip, []) := by
  rw [Ipv6Addr.toText, h]
  dsimp only
  obtain ⟨hsegments, hle⟩ := take_zeroes_drop ip.segments
  rw [ip.length_eq] at hle
  by_cases hspan : (zeroes ip.segments).len > 1
  · rw [if_pos hspan]
    generalize zeroes ip.segments = span at hsegments hle hspan ⊢
    obtain ⟨head, hhead⟩ : ∃ head, head = ip.segments.take span.start := ⟨_, rfl⟩
    obtain ⟨tail, htail⟩ : ∃ tail, tail = ip.segments.drop (span.start + span.len) := ⟨_, rfl⟩
    have hheadLen : head.length = span.start := by
      rw [hhead, List.length_take, ip.length_eq]
      omega
    have htailLen : tail.length = 8 - (span.start + span.len) := by rw [htail, List.length_drop, ip.length_eq]
    rw [← hhead, ← htail] at hsegments ⊢
    have hread : readGroups 8 0 (fmtSubslice head ++ "::".toList ++ fmtSubslice tail) = ⟨head, false, ':' :: ':' :: fmtSubslice tail⟩ := by
      rw [List.append_assoc]
      refine readGroups_fmtSubslice head (by omega) (.inr ⟨_, rfl⟩) fun hmem => ?_
      rcases List.mem_append.1 hmem with hmem | hmem
      · exact absurd hmem (by decide)
      · exact dot_notMem_fmtSubslice _ hmem
    have hreadTail : readGroups (8 - (head.length + 1)) 0 (fmtSubslice tail) = ⟨tail, false, []⟩ := by
      have hread : readGroups (8 - (head.length + 1)) 0 (fmtSubslice tail ++ []) = ⟨tail, false, []⟩ :=
        readGroups_fmtSubslice tail (by omega) (.inl rfl) List.not_mem_nil
      rwa [List.append_nil] at hread
    rw [readIpv6Addr_of_head hread (by omega), hreadTail]
    have hip : Ipv6Addr.ofGroups head tail = ip := by
      refine Ipv6Addr.ext_segments ?_
      rw [segments_ofGroups (k := span.len) (by omega), ← hsegments]
    rw [hip]
  · rw [if_neg hspan]
    have hread : readGroups 8 0 (fmtSubslice ip.segments ++ []) = ⟨ip.segments, false, []⟩ :=
      readGroups_fmtSubslice ip.segments (Nat.le_of_eq ip.length_eq) (.inl rfl) List.not_mem_nil
    rw [List.append_nil] at hread
    rw [readIpv6Addr_of_full hread ip.length_eq]
    have hip : Ipv6Addr.ofGroups ip.segments [] = ip := by
      refine Ipv6Addr.ext_segments ?_
      rw [segments_ofGroups (k := 0) (by rw [ip.length_eq]; rfl), List.replicate_zero, List.append_nil, List.append_nil]
    rw [hip]

/-- The two bytes of a segment make it again. -/
theorem fromBeBytes_octets (segment : UInt16) : fromBeBytes (octets segment).1 (octets segment).2 = segment := by
  have hlt : segment.toNat < 65536 := segment.toNat_lt
  refine UInt16.toNat_inj.1 ?_
  rw [fromBeBytes, octets, UInt16.toNat_ofNat', UInt8.toNat_ofNat', UInt8.toNat_ofNat']
  omega

/-- A mapped address is five zeros, a group of ones and the four bytes. -/
theorem segments_of_mapped {ip : Ipv6Addr} {ipv4 : Ipv4Addr} (h : ip.toIpv4Mapped = some ipv4) :
    ip.segments = List.replicate 5 0 ++ [0xffff, fromBeBytes ipv4.a ipv4.b, fromBeBytes ipv4.c ipv4.d] := by
  rw [Ipv6Addr.toIpv4Mapped] at h
  split at h
  · next ab cd hsegments =>
    obtain rfl := Option.some.inj h
    rw [hsegments, fromBeBytes_octets, fromBeBytes_octets]
    rfl
  · cases h

/-- A mapped address is read back. -/
theorem readIpv6Addr_mapped {ip : Ipv6Addr} {ipv4 : Ipv4Addr} (h : ip.toIpv4Mapped = some ipv4) :
    readIpv6Addr ip.toText = some (ip, []) := by
  rw [Ipv6Addr.toText, h]
  dsimp only
  have hcolon : ∀ s, NoDigit 10 (':' :: s) ∧ NoDigit 16 (':' :: s) := fun s => ⟨noDigit_cons rfl s, noDigit_cons rfl s⟩
  have hhead : readGroups 8 0 ("::ffff:".toList ++ ipv4.toText) = ⟨[], false, ':' :: ':' :: ("ffff:".toList ++ ipv4.toText)⟩ := by
    change readGroups 8 0 (':' :: ':' :: ("ffff:".toList ++ ipv4.toText)) = _
    rw [readGroups, readSeparator_zero, readIpv4Addr_of_noDigit (hcolon _).1, ite_self, readSeparator_zero, readGroup_of_noDigit (hcolon _).2]
  -- behind the double colon: one group, and the address where the second would be
  have htail : readGroups 7 0 ("ffff:".toList ++ ipv4.toText) =
      ⟨[0xffff, fromBeBytes ipv4.a ipv4.b, fromBeBytes ipv4.c ipv4.d], true, []⟩ := by
    have hgroup : readGroup ("ffff:".toList ++ ipv4.toText) = some (0xffff, ':' :: ipv4.toText) :=
      readGroup_append 0xffff (hcolon ipv4.toText).2
    have hipv4 : readIpv4Addr ipv4.toText = some (ipv4, []) := by
      have hread := readIpv4Addr_append ipv4 (noDigit_nil 10)
      rwa [List.append_nil] at hread
    have hrest : readGroups 6 1 (':' :: ipv4.toText) = ⟨[fromBeBytes ipv4.a ipv4.b, fromBeBytes ipv4.c ipv4.d], true, []⟩ := by
      rw [readGroups, readSeparator_cons _ _ _ Nat.one_pos, hipv4]
      rfl
    have hf : readIpv4Addr ("ffff:".toList ++ ipv4.toText) = none := readIpv4Addr_of_noDigit (noDigit_cons (by decide) _)
    rw [readGroups, readSeparator_zero, hf, ite_self, readSeparator_zero, hgroup]
    dsimp only
    rw [hrest]
  have hip : Ipv6Addr.ofGroups [] [0xffff, fromBeBytes ipv4.a ipv4.b, fromBeBytes ipv4.c ipv4.d] = ip := by
    refine Ipv6Addr.ext_segments ?_
    rw [segments_ofGroups (k := 5) rfl, segments_of_mapped h]
    rfl
  rw [readIpv6Addr_of_head hhead (by decide)]
  change some (Ipv6Addr.ofGroups [] (readGroups 7 0 ("ffff:".toList ++ ipv4.toText)).groups,
    (readGroups 7 0 ("ffff:".toList ++ ipv4.toText)).rest) = _
  rw [htail, hip]

/-- An IPv6 address is read back. -/
theorem readIpv6Addr_toText (ip : Ipv6Addr) : readIpv6Addr ip.toText = some (ip, []) := by
  cases h : ip.toIpv4Mapped with
  | none => exact readIpv6Addr_unmapped h
  | some ipv4 => exact readIpv6Addr_mapped h

/-- The text of an address of eight segments begins with none of four bytes. -/
theorem readIpv4Addr_toText_v6 (ip : Ipv6Addr) : readIpv4Addr ip.toText = none := by
  cases h : ip.toIpv4Mapped with
  | none => exact readIpv4Addr_of_notMem (dot_notMem_of_unmapped h)
  | some ipv4 =>
    rw [Ipv6Addr.toText, h]
    have hcolon : toDigit 10 ':' = none := rfl
    exact readIpv4Addr_of_noDigit (noDigit_cons hcolon _)

/-- The text of an address is read as the address. -/
theorem parse_toText (ip : IpAddr) : parse ip.toText = some ip := by
  rw [parse, readIpAddr]
  cases ip with
  | v4 ip =>
    have hread := readIpv4Addr_append ip (noDigit_nil 10)
    rw [List.append_nil] at hread
    rw [IpAddr.toText, hread]
    rfl
  | v6 ip =>
    rw [IpAddr.toText, readIpv4Addr_toText_v6, readIpv6Addr_toText]
    rfl

example : parse "::ffff:1.2.3.4".toList = some (.v6 ⟨[0, 0, 0, 0, 0, 0xffff, 0x0102, 0x0304], rfl⟩) := by decide

end IpText
