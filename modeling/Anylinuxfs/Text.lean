import Mathlib.Algebra.GroupWithZero.Nat
import Mathlib.Data.List.Basic

/-!
# Texts and paths

A Rust `String` is a list of characters, a `BString` or a path a list of bytes. The operations here are those of the standard
library that the modelled functions call.
-/

namespace Anylinuxfs

/-- A `BString`, or the bytes of a path. -/
abbrev Bytes := List UInt8

instance lawfulText : LawfulBEq (List Char) := inferInstance

instance lawfulBytes : LawfulBEq (List UInt8) := inferInstance

/-- `String::as_bytes`. -/
def utf8 (s : List Char) : Bytes := s.flatMap String.utf8EncodeChar

theorem utf8_eq_nil {s : List Char} (h : utf8 s = []) : s = [] := by
  by_contra hne
  obtain ⟨c, hc⟩ := List.exists_mem_of_ne_nil s hne
  exact String.utf8EncodeChar_ne_nil (List.flatMap_eq_nil_iff.1 h c hc)

/-- The order in which a `HashSet` is visited, of which nothing is known but that it has every element. -/
structure HashOrder (α : Type) where
  order : List α → List α
  perm : ∀ l, (order l).Perm l

namespace HashOrder

variable {α : Type}

/-- The order in which the elements are listed. -/
def listed : HashOrder α := ⟨id, fun _ => .rfl⟩

@[simp] theorem mem_order (hash : HashOrder α) {a : α} {l : List α} : a ∈ hash.order l ↔ a ∈ l := (hash.perm l).mem_iff

end HashOrder

/-- Texts are compared as strings, so that no literal has to be decoded. -/
theorem eq_map_toList {texts : List (List Char)} {literals : List String} (h : texts.map String.ofList = literals) :
    texts = literals.map String.toList := by
  rw [← h, List.map_map]
  exact (List.map_id'' (fun _ => String.toList_ofList) texts).symm

/-- A byte string literal. -/
def bytes (s : String) : Bytes := utf8 s.toList

/-- `b'/'`. -/
def slash : UInt8 := 0x2f

/-- `b':'`. -/
def colon : UInt8 := 0x3a

/-- `n.to_string()`. -/
def decimal (n : Nat) : Bytes := utf8 (Nat.toDigits 10 n)

/-- An exit code in a message, with the text for a status that has none. -/
def codeText (unknown : Bytes) : Option Int → Bytes
  | none => unknown
  | some code => if code < 0 then bytes "-" ++ decimal code.natAbs else decimal code.natAbs

/-- The last piece of a text that is split at a byte. -/
def lastPiece (sep : UInt8) (s : Bytes) : Bytes := (s.reverse.takeWhile (· ≠ sep)).reverse

/-- `str::split_once`. -/
def splitOnce (sep : Char) (s : List Char) : Option (List Char × List Char) :=
  if sep ∈ s then some (s.takeWhile (· ≠ sep), (s.dropWhile (· ≠ sep)).tail) else none

/-- `str::replace` after `skip` more characters of the last match. -/
def replaceFrom {α : Type} [BEq α] (pat rep : List α) : Nat → List α → List α
  | _, [] => []
  | skip + 1, _ :: rest => replaceFrom pat rep skip rest
  | 0, c :: rest =>
    if pat.isPrefixOf (c :: rest) then rep ++ replaceFrom pat rep (pat.length - 1) rest else c :: replaceFrom pat rep 0 rest

/-- `str::replace`, of a pattern that is not empty. -/
def replace {α : Type} [BEq α] (pat rep s : List α) : List α := replaceFrom pat rep 0 s

/-- Replacing a character by a text. -/
theorem replace_char (a : Char) (rep s : List Char) : replace [a] rep s = s.flatMap fun c => if c = a then rep else [c] := by
  unfold replace
  induction s with
  | nil => rfl
  | cons c s ih =>
    rw [replaceFrom, List.flatMap_cons, ← ih]
    by_cases hc : c = a
    · rw [if_pos (by simp [hc]), if_pos hc]
      rfl
    · rw [if_neg (by simpa using Ne.symm hc), if_neg hc]
      rfl

/-- `str::rfind`: where the last occurrence of a pattern starts. -/
def rfind (pat s : List Char) : Option Nat :=
  (List.range (s.length + 1)).reverse.find? (fun i => pat.isPrefixOf (s.drop i))

/-- `char::is_whitespace`: the characters with the property `White_Space`. -/
def isWhitespace (c : Char) : Bool :=
  let n := c.toNat
  (9 ≤ n && n ≤ 13) || n == 0x20 || n == 0x85 || n == 0xa0 || n == 0x1680 || (0x2000 ≤ n && n ≤ 0x200a) || n == 0x2028 ||
    n == 0x2029 || n == 0x202f || n == 0x205f || n == 0x3000

/-- `char::is_control`: the characters of the category `Cc`. -/
def isControl (c : Char) : Bool := c.toNat < 0x20 || (0x7f ≤ c.toNat && c.toNat < 0xa0)

/-- `str::trim`. -/
def trim (s : List Char) : List Char := ((s.dropWhile isWhitespace).reverse.dropWhile isWhitespace).reverse

theorem dropWhile_of_head {α : Type} {p : α → Bool} {l : List α} (h : ∀ c ∈ l.head?, p c = false) : l.dropWhile p = l := by
  cases l with
  | nil => rfl
  | cons c l => exact List.dropWhile_cons_of_neg (by rw [h c rfl]; exact Bool.false_ne_true)

/-- Nothing is trimmed but the white space behind a text that neither starts nor ends in white space. -/
theorem trim_append {s eol : List Char} (hne : s ≠ []) (hhead : ∀ c ∈ s.head?, isWhitespace c = false)
    (hlast : ∀ c ∈ s.getLast?, isWhitespace c = false) (heol : ∀ c ∈ eol, isWhitespace c = true) : trim (s ++ eol) = s := by
  unfold trim
  rw [dropWhile_of_head (l := s ++ eol) (by rw [List.head?_append_of_ne_nil _ hne]; exact hhead), List.reverse_append,
    List.dropWhile_append_of_pos (by simpa using heol),
    dropWhile_of_head (by rw [List.head?_reverse]; exact hlast), List.reverse_reverse]

/-- `str::find`: the text from the first occurrence of a pattern on. -/
def findFrom (pat : List Char) : List Char → Option (List Char)
  | [] => if pat = [] then some [] else none
  | c :: rest => if pat.isPrefixOf (c :: rest) then some (c :: rest) else findFrom pat rest

/-- `BTreeSet::insert`, into the list of the elements in their order. -/
def setInsert (s : List Char) : List (List Char) → List (List Char)
  | [] => [s]
  | t :: rest => if s = t then t :: rest else if s < t then s :: t :: rest else t :: setInsert s rest

theorem mem_setInsert_iff {s t : List Char} {set : List (List Char)} : t ∈ setInsert s set ↔ t = s ∨ t ∈ set := by
  induction set with
  | nil => simp [setInsert]
  | cons u rest ih =>
    rw [setInsert]
    split
    · next heq =>
      rw [heq, List.mem_cons, or_self_left]
    · split
      · exact List.mem_cons
      · rw [List.mem_cons, ih, List.mem_cons, or_left_comm]

theorem mem_foldl_setInsert_iff {t : List Char} {l set : List (List Char)} :
    t ∈ l.foldl (fun set s => setInsert s set) set ↔ t ∈ l ∨ t ∈ set := by
  induction l generalizing set with
  | nil => simp
  | cons u l ih => rw [List.foldl_cons, ih, mem_setInsert_iff, List.mem_cons, or_left_comm, or_assoc]

/-- The elements stay in their order, each of them once. -/
theorem pairwise_setInsert {set : List (List Char)} (s : List Char) (h : set.Pairwise (· < ·)) :
    (setInsert s set).Pairwise (· < ·) := by
  induction set with
  | nil => exact List.pairwise_singleton _ s
  | cons t rest ih =>
    obtain ⟨ht, hrest⟩ := List.pairwise_cons.1 h
    rw [setInsert]
    split
    · exact h
    split
    · next hlt =>
      refine List.pairwise_cons.2 ⟨fun u hu => ?_, h⟩
      rcases List.mem_cons.1 hu with rfl | hu
      · exact hlt
      · exact List.lt_trans hlt (ht u hu)
    · next hne hlt =>
      have hgt : t < s := (List.le_iff_lt_or_eq.1 (List.not_lt.1 hlt)).resolve_right (Ne.symm hne)
      refine List.pairwise_cons.2 ⟨fun u hu => ?_, ih hrest⟩
      rcases mem_setInsert_iff.1 hu with rfl | hu
      · exact hgt
      · exact ht u hu

/-- `str::parse::<usize>` of digits. -/
def parseUsize (digits : List Char) : Option Nat :=
  let n := digits.foldl (fun n c => 10 * n + (c.toNat - '0'.toNat)) 0
  if n < 2 ^ 64 then some n else none

/-- The path of a text with the separator `sep`: an absolute path replaces the base; otherwise a separator is put between the two
unless the base is empty or ends in one. -/
def joinAt {α : Type} [DecidableEq α] (sep : α) (base path : List α) : List α :=
  if path.head? = some sep then path
  else if base = [] ∨ base.getLast? = some sep then base ++ path
  else base ++ sep :: path

/-- `Path::join`. -/
def pathJoin (base path : Bytes) : Bytes := joinAt slash base path

/-- `Path::components`: the root if the path is absolute, then the names between the separators, without empty ones and without
`.` except as the first component of a relative path. -/
def components (path : Bytes) : List Bytes :=
  match path.splitOn slash with
  | [] => []
  | piece :: rest =>
    (if path.head? = some slash then [[slash]] else if piece = [] then [] else [piece]) ++
      rest.filter (fun c => c ≠ [] ∧ c ≠ bytes ".")

/-- `Path::file_name`: the last component if it is a name. -/
def fileName (path : Bytes) : Option Bytes :=
  (components path).getLast?.filter (fun c => c ≠ [slash] ∧ c ≠ bytes "." ∧ c ≠ bytes "..")

end Anylinuxfs
