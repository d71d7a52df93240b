import Anylinuxfs.Lib.IpAddr
import Anylinuxfs.Rpcbind

/-!
# Universal addresses

`parse_rpcb_addr` of `rpcbind/mod.rs` with the panics it may end in: slices at indices of bytes, and a port that is summed up in
16 bits. Where nothing overflows, it is the function that the registry is listed with.
-/

namespace Anylinuxfs

namespace Rpcbind

open IpText (IpAddr)

/-- The addresses of the standard library; how `rpcb_set` writes them is left open. -/
def stdText (uaddr : IpAddr → UInt16 → List Char) : AddrText IpAddr where
  parseIp := IpText.parse
  anyV4 := .v4 ⟨0, 0, 0, 0⟩
  anyV6 := .v6 ⟨List.replicate 8 0, rfl⟩
  uaddr

/-- `str::split_at`: what is before and behind an index of a byte. Inside of a character or behind the end it panics. -/
def splitAt : List Char → Nat → Option (List Char × List Char)
  | s, 0 => some ([], s)
  | [], _ + 1 => none
  | c :: s, mid =>
    if (String.utf8EncodeChar c).length ≤ mid then
      (splitAt s (mid - (String.utf8EncodeChar c).length)).map fun (before, rest) => (c :: before, rest)
    else none

/-- `str::rfind`: the index of the byte at which the last occurrence of a character begins. -/
def rfindByte (c : Char) (s : List Char) : Option Nat := (rfind [c] s).map fun i => (utf8 (s.take i)).length

/-- `acc * 256 + octet.parse::<u16>().unwrap_or(0)`: the product and the sum have to fit. -/
def addOctet (acc : UInt16) (octet : List Char) : Option UInt16 :=
  if acc.toNat * 256 < 2 ^ 16 ∧ acc.toNat * 256 + ((parseU16 octet).getD 0).toNat < 2 ^ 16 then
    some (acc * 256 + (parseU16 octet).getD 0)
  else none

/-- `parse_rpcb_addr`, or a panic. -/
def parseRpcbAddrChecked {Ip : Type} (text : AddrText Ip) (addr : List Char) : Option (Ip × UInt16) := do
  -- "find position of the second last dot"
  let secondLastDot ← match rfindByte '.' addr with
    | none => pure 0
    | some pos => do
      let (before, _) ← splitAt addr pos
      pure ((rfindByte '.' before).getD 0)
  -- "extract the last two octets"
  let (ip, lastTwo) ← splitAt addr secondLastDot
  let port ← (lastTwo.splitOn '.').foldlM addOctet 0
  pure ((text.parseIp ip).getD text.anyV4, port)

/-- The two bytes of a port behind an address. -/
def portSuffix (port : UInt16) : List Char :=
  '.' :: Nat.toDigits 10 (port.toNat / 256) ++ '.' :: Nat.toDigits 10 (port.toNat % 256)

/-- The value that a field of an address counts for. -/
def octetValue (octet : List Char) : Nat := ((parseU16 octet).getD 0).toNat

/-- The last two fields of an address, if there are two, make a port of 16 bits. -/
def PortFits (addr : List Char) : Prop :=
  ∀ fields hi lo, addr.splitOn '.' = fields ++ [hi, lo] → octetValue hi * 256 + octetValue lo < 2 ^ 16

end Rpcbind

end Anylinuxfs
