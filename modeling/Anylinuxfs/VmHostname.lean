import Mathlib.Data.Finset.Card
import Anylinuxfs.Lib.Loop
import Anylinuxfs.ListLabel

/-!
# The host name of the virtual machine

`hostname_from_disk_ident` (`main.rs`) makes a host name of what the user calls the disk, and `pick_unique_hostname`
(`cmd_mount.rs`) appends a number to it as long as another virtual machine has the name.
-/

namespace Anylinuxfs

/-- `Path::file_name` of a path that is a text. -/
def textFileName (path : List Char) : Option (List Char) :=
  ((path.splitOn '/').filter fun c => c ≠ [] ∧ c ≠ ".".toList).getLast?.filter (· ≠ "..".toList)

namespace VmHostname

/-! ## From the identifier of a disk -/

/-- `special`. -/
def special : List (List Char) := ["lvm".toList, "raid".toList]

/-- The prefix, and the token with the path. -/
def prefixAndToken (diskIdent : List Char) : List Char × List Char :=
  match diskIdent.splitOn ':' with
  | firstToken :: secondToken :: _ => if firstToken ∈ special then (firstToken, secondToken) else ([], firstToken)
  | [firstToken] => ([], firstToken)
  -- there is always a first token
  | [] => ([], [])

/-- `disk_name`: the name of the file, without the suffix for a partition. -/
def diskName (firstToken : List Char) : List Char :=
  let diskName := (textFileName firstToken).getD "disk".toList
  match rfind "@s".toList diskName with
  | some atPos => if (diskName.drop (atPos + 2)).all Char.isDigit then diskName.take atPos else diskName
  | none => diskName

/-- The characters that become hyphens. -/
def replaced : List Char := [' ', '_', '\\', '<', '>', '|', '+', ':', '.', ',']

/-- A character of host names. -/
def isHostChar (c : Char) : Bool := c.isAlphanum || c == '-'

/-- What remains of the name of a disk. -/
def hostChars (diskName : List Char) : List Char := (diskName.map fun c => if c ∈ replaced then '-' else c).filter isHostChar

/-- `hostname_from_disk_ident`, or a panic. -/
def hostnameFromDiskIdent (diskIdent : List Char) : Option (List Char) :=
  let (tokenPrefix, firstToken) := prefixAndToken diskIdent
  let vmHostname := hostChars (diskName firstToken)
  let vmHostname := if vmHostname = [] then "disk".toList else vmHostname
  let vmHostname := if tokenPrefix = [] then vmHostname else tokenPrefix ++ '-' :: vmHostname
  if 63 < (utf8 vmHostname).length then sliceTo 63 vmHostname else some vmHostname

/-! ## With a number -/

/-- Why the loop panics. -/
inductive Panic where
  | slice
  | overflow
  deriving DecidableEq, Repr

/-- `candidate`, or a panic. -/
def candidate (base : List Char) (counter : Nat) : Option (List Char) :=
  if counter = 0 then some base
  else
    let suffix := '-' :: Nat.toDigits 10 counter
    if 63 < (utf8 suffix).length then none
    else (sliceTo (min (utf8 base).length (63 - (utf8 suffix).length)) base).map (· ++ suffix)

/-- The name in the list of the active hosts. -/
def localName (hostname : List Char) : List Char := hostname ++ ".local".toList

/-- One turn of the loop in `pick_unique_hostname`, on the value of the 32-bit counter. -/
def pickUniqueHostname (base : List Char) (activeVmHosts : Finset (List Char)) (counter : Nat) : Nat ⊕ Except Panic (List Char) :=
  match candidate base counter with
  | none => .inr (.error .slice)
  | some candidate =>
    if localName candidate ∉ activeVmHosts then .inr (.ok candidate)
    else if counter + 1 < 2 ^ 32 then .inl (counter + 1)
    else .inr (.error .overflow)

/-! ## What is asked of the host name -/

/-- What remains of the name of the disk with this identifier. -/
def kept (diskIdent : List Char) : List Char := hostChars (diskName (prefixAndToken diskIdent).2)

/-- What stands before it. -/
def lead (diskIdent : List Char) : List Char :=
  if (prefixAndToken diskIdent).1 = [] then [] else (prefixAndToken diskIdent).1 ++ ['-']

/-- As much of it as there is place for. -/
def fitting (diskIdent : List Char) : List Char := (kept diskIdent).take (63 - (lead diskIdent).length)

/-- The host name without a number. -/
def plainName (diskIdent : List Char) : List Char :=
  lead diskIdent ++ if kept diskIdent = [] then "disk".toList else fitting diskIdent

/-- The host name with a number; zero stands for none. -/
def numbered (base : List Char) (n : Nat) : List Char :=
  if n = 0 then base else base.take (62 - (Nat.toDigits 10 n).length) ++ '-' :: Nat.toDigits 10 n

/-- The host name neither starts nor ends in a hyphen. -/
def HyphenLaw (diskIdent : List Char) (activeVmHosts : Finset (List Char)) : Prop :=
  ∀ base name, hostnameFromDiskIdent diskIdent = some base → Loop.EndsIn (pickUniqueHostname base activeVmHosts) 0 (.ok name) →
    name.head? ≠ some '-' ∧ name.getLast? ≠ some '-'

end VmHostname

end Anylinuxfs
