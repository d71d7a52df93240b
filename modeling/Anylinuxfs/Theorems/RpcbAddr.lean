import Anylinuxfs.Lemmas.Text
import Anylinuxfs.Lemmas.Utf8
import Anylinuxfs.RpcbAddr

/-!
# Addresses and ports are read back

The last two fields of a universal address are those behind its last two dots, whatever the address has in front. They make the
port, which overflows if they are no bytes.
-/

namespace Anylinuxfs

namespace Rpcbind

open IpText (IpAddr)

variable {Ip : Type} {text : AddrText Ip} {addr before rest hi lo : List Char} {port : UInt16} {c : Char}

/-! ## Slices -/

theorem splitAt_append (before rest : List Char) : splitAt (before ++ rest) (utf8 before).length = some (before, rest) := by
  induction before with
  | nil =>
    cases rest with
    | nil => rfl
    | cons c rest => rfl
  | cons c before ih =>
    have hpos : 0 < (String.utf8EncodeChar c).length := List.length_pos_iff.2 String.utf8EncodeChar_ne_nil
    obtain ⟨k, hk⟩ : ∃ k, (utf8 (c :: before)).length = k + 1 := by
      rw [utf8_cons, List.length_append]
      exact ⟨_, (Nat.succ_pred_eq_of_pos (by omega)).symm⟩
    have hsub : k + 1 - (String.utf8EncodeChar c).length = (utf8 before).length := by
      rw [← hk, utf8_cons, List.length_append, Nat.add_sub_cancel_left]
    have hle : (String.utf8EncodeChar c).length ≤ k + 1 := by
      rw [← hk, utf8_cons, List.length_append]
      exact Nat.le_add_right _ _
    rw [hk, List.cons_append, splitAt, if_pos hle, hsub, ih]
    · rfl
    · exact nofun

theorem splitAt_zero (s : List Char) : splitAt s 0 = some ([], s) := splitAt_append [] s

theorem rfindByte_append_cons (before : List Char) (h : c ∉ rest) : rfindByte c (before ++ c :: rest) = some (utf8 before).length := by
  rw [rfindByte, rfind_append_cons h, Option.map_some, List.take_left]

theorem rfindByte_of_notMem (h : c ∉ rest) : rfindByte c rest = none := by
  rw [rfindByte, rfind_of_notMem h, Option.map_none]

/-! ## Ports -/

theorem octetValue_lt (octet : List Char) : octetValue octet < 2 ^ 16 := UInt16.toNat_lt _

theorem addOctet_zero (octet : List Char) : addOctet 0 octet = some ((parseU16 octet).getD 0) := by
  have hlt := octetValue_lt octet
  rw [octetValue] at hlt
  rw [addOctet, if_pos ⟨by decide, by rw [UInt16.toNat_zero, Nat.zero_mul, Nat.zero_add]; exact hlt⟩, UInt16.zero_mul, UInt16.zero_add]

theorem parseU16_nil : parseU16 [] = none := rfl

/-- The port of two fields. -/
theorem addOctet_octet (hi lo : List Char) :
    addOctet ((parseU16 hi).getD 0) lo =
      if octetValue hi * 256 + octetValue lo < 2 ^ 16 then some ((parseU16 hi).getD 0 * 256 + (parseU16 lo).getD 0) else none := by
  have hfits : (((parseU16 hi).getD 0).toNat * 256 < 2 ^ 16 ∧
      ((parseU16 hi).getD 0).toNat * 256 + ((parseU16 lo).getD 0).toNat < 2 ^ 16) ↔
        octetValue hi * 256 + octetValue lo < 2 ^ 16 :=
    ⟨fun h => h.2, fun h => ⟨Nat.lt_of_le_of_lt (Nat.le_add_right _ _) h, h⟩⟩
  rw [addOctet]
  simp only [hfits]

/-! ## Addresses by their dots -/

/-- How an address ends: without a dot, with one, or with two and no dot behind either but they. -/
theorem dots_cases (addr : List Char) :
    '.' ∉ addr ∨ (∃ hi lo, addr = hi ++ '.' :: lo ∧ '.' ∉ hi ∧ '.' ∉ lo) ∨
      ∃ ip hi lo, addr = ip ++ '.' :: hi ++ '.' :: lo ∧ '.' ∉ hi ∧ '.' ∉ lo := by
  by_cases hdot : '.' ∈ addr
  · obtain ⟨before, lo, rfl, hlo⟩ := exists_last hdot
    by_cases hdot' : '.' ∈ before
    · obtain ⟨ip, hi, rfl, hhi⟩ := exists_last hdot'
      exact .inr (.inr ⟨ip, hi, lo, rfl, hhi, hlo⟩)
    · exact .inr (.inl ⟨before, lo, rfl, hdot', hlo⟩)
  · exact .inl hdot

theorem parseChecked_of_notMem (text : AddrText Ip) (h : '.' ∉ addr) :
    parseRpcbAddrChecked text addr = some ((text.parseIp []).getD text.anyV4, (parseU16 addr).getD 0) := by
  rw [parseRpcbAddrChecked, rfindByte_of_notMem h]
  simp only [Option.pure_def, Option.bind_eq_bind, Option.bind_some, splitAt_zero, List.splitOn_eq_singleton h, List.foldlM_cons,
    List.foldlM_nil, addOctet_zero]

theorem parseChecked_of_one (text : AddrText Ip) (hhi : '.' ∉ hi) (hlo : '.' ∉ lo) :
    parseRpcbAddrChecked text (hi ++ '.' :: lo) =
      if octetValue hi * 256 + octetValue lo < 2 ^ 16 then
        some ((text.parseIp []).getD text.anyV4, (parseU16 hi).getD 0 * 256 + (parseU16 lo).getD 0)
      else none := by
  have hsplit : (hi ++ '.' :: lo).splitOn '.' = [hi, lo] := by
    rw [List.splitOn_append_cons_self, List.splitOn_eq_singleton hhi, List.splitOn_eq_singleton hlo]
    rfl
  rw [parseRpcbAddrChecked, rfindByte_append_cons hi hlo]
  simp only [Option.pure_def, Option.bind_eq_bind, Option.bind_some, splitAt_append, rfindByte_of_notMem hhi, Option.getD_none,
    splitAt_zero, hsplit, List.foldlM_cons, List.foldlM_nil, addOctet_zero, addOctet_octet]
  split
  · rfl
  · rfl

theorem parseChecked_of_two (text : AddrText Ip) (ip : List Char) (hhi : '.' ∉ hi) (hlo : '.' ∉ lo) :
    parseRpcbAddrChecked text (ip ++ '.' :: hi ++ '.' :: lo) =
      if octetValue hi * 256 + octetValue lo < 2 ^ 16 then
        some ((text.parseIp ip).getD text.anyV4, (parseU16 hi).getD 0 * 256 + (parseU16 lo).getD 0)
      else none := by
  have hsplit : ('.' :: hi ++ '.' :: lo).splitOn '.' = [[], hi, lo] := by
    rw [List.splitOn_append_cons_self, ← List.nil_append ('.' :: hi), List.splitOn_append_cons_self, List.splitOn_eq_singleton hhi,
      List.splitOn_eq_singleton hlo]
    rfl
  have hslice := splitAt_append ip ('.' :: hi ++ '.' :: lo)
  rw [← List.append_assoc] at hslice
  rw [parseRpcbAddrChecked, rfindByte_append_cons _ hlo]
  simp only [Option.pure_def, Option.bind_eq_bind, Option.bind_some, splitAt_append, rfindByte_append_cons ip hhi, Option.getD_some,
    hslice, hsplit, List.foldlM_cons, List.foldlM_nil, addOctet_zero, addOctet_octet, parseU16_nil, Option.getD_none]
  split
  · rfl
  · rfl

/-- What is read without a panic is what the registry is listed with. -/
theorem parseRpcbAddr_of_checked {entry : Ip × UInt16} (h : parseRpcbAddrChecked text addr = some entry) :
    parseRpcbAddr text addr = entry := by
  rcases dots_cases addr with hdot | ⟨hi, lo, rfl, hhi, hlo⟩ | ⟨ip, hi, lo, rfl, hhi, hlo⟩
  · rw [parseChecked_of_notMem text hdot] at h
    rw [← Option.some.inj h]
    simp [parseRpcbAddr, rfind_of_notMem hdot, List.splitOn_eq_singleton hdot]
  · rw [parseChecked_of_one text hhi hlo] at h
    rw [← Option.some.inj (Option.ite_none_right_eq_some.1 h).2]
    simp [parseRpcbAddr, rfind_append_cons hlo, rfind_of_notMem hhi, List.splitOn_append_cons_self, List.splitOn_eq_singleton hhi,
      List.splitOn_eq_singleton hlo]
  · rw [parseChecked_of_two text ip hhi hlo] at h
    have hsplit : ('.' :: (hi ++ '.' :: lo)).splitOn '.' = [[], hi, lo] := by
      rw [← List.nil_append ('.' :: _), List.splitOn_append_cons_self, List.splitOn_append_cons_self, List.splitOn_eq_singleton hhi,
        List.splitOn_eq_singleton hlo]
      rfl
    rw [← Option.some.inj (Option.ite_none_right_eq_some.1 h).2, List.append_assoc]
    rw [parseRpcbAddr, ← List.append_assoc, rfind_append_cons hlo, Option.bind_some, List.take_left, rfind_append_cons hhi,
      Option.getD_some, List.append_assoc, List.cons_append, List.drop_left, List.take_left, hsplit]
    simp [parseU16_nil]

/-! ## Overflow -/

theorem portFits_of_notMem (h : '.' ∉ addr) : PortFits addr := by
  intro fields hi lo hsplit
  rw [List.splitOn_eq_singleton h] at hsplit
  have hlen := congrArg List.length hsplit
  rw [List.length_append] at hlen
  simp at hlen

/-- The fields that count are the last two. -/
theorem portFits_append_iff (fields : List (List Char)) (hsplit : addr.splitOn '.' = fields ++ [hi, lo]) :
    PortFits addr ↔ octetValue hi * 256 + octetValue lo < 2 ^ 16 := by
  refine ⟨fun h => h fields hi lo hsplit, fun h fields' hi' lo' hsplit' => ?_⟩
  obtain ⟨-, hlast⟩ := List.append_inj' (hsplit.symm.trans hsplit') rfl
  obtain ⟨rfl, htail⟩ := List.cons.inj hlast
  obtain ⟨rfl, -⟩ := List.cons.inj htail
  exact h

/-- An address is read without a panic exactly if its last two fields make a port of 16 bits. -/
theorem parseRpcbAddrChecked_isSome_iff (text : AddrText Ip) (addr : List Char) :
    (parseRpcbAddrChecked text addr).isSome = true ↔ PortFits addr := by
  rcases dots_cases addr with hdot | ⟨hi, lo, rfl, hhi, hlo⟩ | ⟨ip, hi, lo, rfl, hhi, hlo⟩
  · rw [parseChecked_of_notMem text hdot]
    exact iff_of_true rfl (portFits_of_notMem hdot)
  · have hsplit : (hi ++ '.' :: lo).splitOn '.' = [] ++ [hi, lo] := by
      rw [List.splitOn_append_cons_self, List.splitOn_eq_singleton hhi, List.splitOn_eq_singleton hlo]
      rfl
    rw [portFits_append_iff [] hsplit, parseChecked_of_one text hhi hlo, Option.isSome_ite]
  · have hsplit : (ip ++ '.' :: hi ++ '.' :: lo).splitOn '.' = ip.splitOn '.' ++ [hi, lo] := by
      rw [List.splitOn_append_cons_self, List.splitOn_append_cons_self, List.splitOn_eq_singleton hhi, List.splitOn_eq_singleton hlo,
        List.append_assoc]
      rfl
    rw [portFits_append_iff _ hsplit, parseChecked_of_two text ip hhi hlo, Option.isSome_ite]

/-- A field that is no byte. -/
theorem parseRpcbAddrChecked_false : ¬ ∀ addr, (parseRpcbAddrChecked (stdText fun _ _ => []) addr).isSome = true := by
  intro h
  have hsome := h ("10.0.0.1".toList ++ '.' :: "300".toList ++ '.' :: "1".toList)
  rw [parseChecked_of_two _ _ (by decide) (by decide)] at hsome
  exact absurd hsome (by decide)

/-! ## Round trip -/

theorem parseU16_toDigits {n : Nat} (hn : n < 2 ^ 16) : parseU16 (Nat.toDigits 10 n) = some (UInt16.ofNat n) := by
  have hhead : (Nat.toDigits 10 n).head? ≠ some '+' := fun h =>
    notMem_toDigits_of_not_isDigit (by decide) (List.mem_of_mem_head? h)
  have hfilter : (some n).filter (fun n => decide (n < 2 ^ 16)) = some n := Option.filter_some_pos (decide_eq_true hn)
  rw [parseU16, if_neg hhead, if_pos ⟨Nat.toDigits_ne_nil, isDigit_toDigits⟩, parseUsize_toDigits (by omega), hfilter, Option.map_some]

theorem octetValue_toDigits {n : Nat} (hn : n < 2 ^ 16) : octetValue (Nat.toDigits 10 n) = n := by
  rw [octetValue, parseU16_toDigits hn, Option.getD_some, UInt16.toNat_ofNat', Nat.mod_eq_of_lt hn]

theorem dot_notMem_toDigits (n : Nat) : '.' ∉ Nat.toDigits 10 n := notMem_toDigits_of_not_isDigit (by decide)

/-- The text of an address is read as the address, and any text that is read so, with a port behind it, as the address and the
port. -/
theorem parseRpcbAddr_roundTrip (uaddr : IpAddr → UInt16 → List Char) (ip : IpAddr) (port : UInt16) :
    parseRpcbAddrChecked (stdText uaddr) (ip.toText ++ portSuffix port) = some (ip, port) ∧
      ∀ s, IpText.parse s = some ip → parseRpcbAddrChecked (stdText uaddr) (s ++ portSuffix port) = some (ip, port) := by
  have hany : ∀ s, IpText.parse s = some ip → parseRpcbAddrChecked (stdText uaddr) (s ++ portSuffix port) = some (ip, port) := by
    intro s hs
    have hport : port.toNat < 2 ^ 16 := port.toNat_lt
    have hhi : port.toNat / 256 < 2 ^ 16 := by omega
    have hlo : port.toNat % 256 < 2 ^ 16 := by omega
    have hfits : octetValue (Nat.toDigits 10 (port.toNat / 256)) * 256 + octetValue (Nat.toDigits 10 (port.toNat % 256)) < 2 ^ 16 := by
      rw [octetValue_toDigits hhi, octetValue_toDigits hlo]
      omega
    have hsum : UInt16.ofNat (port.toNat / 256) * 256 + UInt16.ofNat (port.toNat % 256) = port := by
      refine UInt16.toNat_inj.1 ?_
      rw [UInt16.toNat_add, UInt16.toNat_mul, UInt16.toNat_ofNat', UInt16.toNat_ofNat']
      change (port.toNat / 256 % 2 ^ 16 * 256 % 2 ^ 16 + port.toNat % 256 % 2 ^ 16) % 2 ^ 16 = port.toNat
      omega
    rw [portSuffix, ← List.append_assoc, parseChecked_of_two _ s (dot_notMem_toDigits _) (dot_notMem_toDigits _), if_pos hfits,
      parseU16_toDigits hhi, parseU16_toDigits hlo, Option.getD_some, Option.getD_some, hsum]
    exact congrArg (fun parsed : Option IpAddr => some (parsed.getD _, port)) hs
  exact ⟨hany ip.toText (IpText.parse_toText ip), hany⟩

theorem parseRpcbAddr_roundTrip_mapped :
    parseRpcbAddrChecked (stdText fun _ _ => []) ("::ffff:10.0.0.1".toList ++ portSuffix 900) =
      some (.v6 ⟨[0, 0, 0, 0, 0, 0xffff, 0x0a00, 0x0001], rfl⟩, 900) :=
  (parseRpcbAddr_roundTrip (fun _ _ => []) (.v6 ⟨[0, 0, 0, 0, 0, 0xffff, 0x0a00, 0x0001], rfl⟩) 900).2 "::ffff:10.0.0.1".toList (by decide)

end Rpcbind

end Anylinuxfs
