import Anylinuxfs.Vmproxy

/-!
# The mount table of the guest

What `mount` prints about the mounted file systems, in the style of Linux and of FreeBSD, and how the script of `run` reads the
options of one of them out of it: `mount | grep {} | awk -F'(' '{ print $2 }' | tr -d ')'`.
-/

namespace Anylinuxfs

/-- The text begins and ends with something other than white space. -/
def edgesFilled (s : List Char) : Bool := s.head?.any (!isWhitespace ·) && s.getLast?.any (!isWhitespace ·)

/-- What one name of an entry is printed as: on one line, without a separator, and not blank at its ends. -/
def isOptionText (s : List Char) : Bool := edgesFilled s && '\n' ∉ s && ',' ∉ s

/-- The entry is as `mount` prints them: `ro` or `rw` is the first option in Linux, and no other option is called `ro`. -/
def wellPrinted (os : OsType) (device mountPoint fsType : List Char) (options : List (List Char)) : Bool :=
  '\n' ∉ device && '\n' ∉ mountPoint && isOptionText fsType && fsType ≠ "ro".toList && options.all isOptionText &&
    "ro".toList ∉ options.tail &&
    match os with
    | .linux => options.head? = some "ro".toList ∨ options.head? = some "rw".toList
    | .freeBsd => true

/-- An entry of the mount table: where the file system was mounted from, the name of that device as it is printed, the mount
point, the type and the options. -/
structure MountEntry (os : OsType) where
  source : List Char
  device : List Char
  mountPoint : List Char
  fsType : List Char
  options : List (List Char)
  printed : wellPrinted os device mountPoint fsType options = true

namespace MountEntry

variable {os : OsType}

/-- The file system is mounted read-only. -/
def readOnly (e : MountEntry os) : Bool :=
  match os with
  | .linux => e.options.head? = some "ro".toList
  | .freeBsd => "read-only".toList ∈ e.options

/-- What stands between the parentheses. -/
def optionTexts (e : MountEntry os) : List (List Char) :=
  match os with
  | .linux => e.options
  | .freeBsd => e.fsType :: e.options.map (' ' :: ·)

/-- What stands before the parentheses. -/
def subject (e : MountEntry os) : List Char :=
  match os with
  | .linux => e.device ++ " on ".toList ++ e.mountPoint ++ " type ".toList ++ e.fsType ++ [' ']
  | .freeBsd => e.device ++ " on ".toList ++ e.mountPoint ++ [' ']

/-- The line that `mount` prints. -/
def line (e : MountEntry os) : List Char := e.subject ++ ['('] ++ [','].intercalate e.optionTexts ++ [')']

/-- The first opening parenthesis of the line is the one in front of the options, in which no other parentheses stand. -/
def Clear (e : MountEntry os) : Prop := '(' ∉ e.subject ∧ ∀ o ∈ e.optionTexts, '(' ∉ o ∧ ')' ∉ o

instance (e : MountEntry os) : Decidable e.Clear := inferInstanceAs (Decidable (_ ∧ _))

end MountEntry

/-- `awk -F'(' '{ print $2 }'`. -/
def secondField (line : List Char) : List Char := (line.splitOn '(').getD 1 []

/-- `tr -d ')'`. -/
def withoutClosing (s : List Char) : List Char := s.filter (· ≠ ')')

section

variable {os : OsType} (finds : List Char → List Char → Bool)

/-- The entries that `grep` finds; `finds` is whether the text after `grep` finds a line. -/
def foundEntries (table : List (MountEntry os)) (diskPath : List Char) : List (MountEntry os) :=
  table.filter fun e => finds diskPath e.line

/-- What the script prints. -/
def effectiveOptionsOutput (table : List (MountEntry os)) (diskPath : List Char) : List Char :=
  (((table.map MountEntry.line).filter (finds diskPath)).map fun line => withoutClosing (secondField line) ++ ['\n']).flatten

/-- The file system mounted from a path at a mount point: the last one, which hides the others. -/
def mountedFrom (table : List (MountEntry os)) (diskPath mountPoint : List Char) : Option (MountEntry os) :=
  table.reverse.find? fun e => e.source = diskPath ∧ e.mountPoint = mountPoint

/-- The file system is mounted read-only. -/
def mountedReadOnly (table : List (MountEntry os)) (diskPath mountPoint : List Char) : Bool :=
  (mountedFrom table diskPath mountPoint).any MountEntry.readOnly

/-- The first option of the first entry is `ro`, in Linux, and it stands between commas: a line break is none. -/
def showsReadOnly : List (MountEntry os) → Bool
  | [] => false
  | [e] => e.optionTexts.head? = some "ro".toList
  | e :: _ => e.optionTexts.head? = some "ro".toList && 2 ≤ e.optionTexts.length

/-- `ro` stands between two commas of the text; what is blank at its beginning and at its end counts for nothing. -/
def ShowsRo (text : List Char) : Prop :=
  ∃ a b, text = a ++ ("ro".toList ++ b) ∧ (a.getLast? = some ',' ∨ ∀ c ∈ a, isWhitespace c = true) ∧
    (b.head? = some ',' ∨ ∀ c ∈ b, isWhitespace c = true)

/-- The lines that are found show `ro` as the first option. With a parenthesis in front of the options of one of them, or in these,
it happens to stand between commas behind the first parenthesis of a line. -/
def LinesShowRo (found : List (MountEntry os)) : Prop :=
  (∀ e ∈ found, e.Clear) ∧ showsReadOnly found = true ∨
    (∃ e ∈ found, ¬e.Clear) ∧ ShowsRo (found.flatMap fun e => withoutClosing (secondField e.line) ++ ['\n'])

end

/-! ## What is asked of the detection -/

/-- `export_mode`. -/
def exportMode (readOnly : Bool) : List Char := if readOnly then "ro".toList else "rw".toList

open Vmproxy in
/-- What the run says about the file system is true: it is taken for read-only exactly when it is, it is exported in the mode `ro`
when that was asked for or is so, and a change is announced only when there is one. -/
structure DetectsReadOnly (env : ∀ c : Vmproxy.Call, c.Answer) (dsk : DiskContext) (readOnly : Bool) : Prop where
  exact : (effectiveReadOnly dsk).result env = .ok readOnly
  exported : dsk.specifiedReadOnly = true ∨ readOnly = true →
    ((effectiveReadOnly dsk).result env).map exportMode = .ok "ro".toList
  announced : .println changedToRo ∈ (effectiveReadOnly dsk).trace env → dsk.specifiedReadOnly = false ∧ readOnly = true

end Anylinuxfs
