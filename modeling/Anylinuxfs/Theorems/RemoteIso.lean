import Anylinuxfs.RemoteIso

/-!
# Cached reads and the file

Blocks are kept only if the server gave all of them, so that every kept block is that of the file, whatever failed before. From
there the buffer is filled block by block with the bytes of the file.
-/

namespace Anylinuxfs

namespace RemoteIso

open Buffer

variable {file p data : Bytes} {server : Server} {c c' : CachedReaderAt} {blockSize b o : Nat}

/-! ## Requests -/

theorem rangeOf_block (file : Bytes) (blockSize b : Nat) :
    rangeOf file ((b * blockSize : Nat) : Int) ((b * blockSize : Nat) + blockSize - 1) = (file.drop (b * blockSize)).take blockSize := by
  have hlen : (((b * blockSize : Nat) : Int) + blockSize - 1 + 1 - (b * blockSize : Nat)).toNat = blockSize := by omega
  rw [rangeOf, Int.toNat_natCast, hlen]

/-- A buffer of zeros has what there is of the body, as a block of its own. -/
theorem readFull_zeros (body : Bytes) (bodyErr : ReadError) (blockSize : Nat) :
    (readFull body bodyErr (List.replicate blockSize 0)).1 = paddedBlock body blockSize 0 0 := by
  rw [readFull, List.length_replicate, paddedBlock, Nat.zero_mul, List.drop_zero, List.length_take]
  dsimp only
  rw [List.drop_replicate, Nat.min_comm]
  congr 1
  rw [List.take_eq_take_iff, Nat.min_assoc, Nat.min_self]

/-- A read that fills the buffer, or comes to the end of the body, wherever that is. -/
theorem readFull_err (body : Bytes) (bodyErr : ReadError) (blockSize : Nat) :
    ((readFull body bodyErr (List.replicate blockSize 0)).2.2 = none ∨
      (readFull body bodyErr (List.replicate blockSize 0)).2.2 = some .eof ∨
        (readFull body bodyErr (List.replicate blockSize 0)).2.2 = some .unexpectedEof) ↔
      blockSize ≤ body.length ∨ bodyErr = .eof ∨ bodyErr = .unexpectedEof := by
  rw [readFull, List.length_replicate]
  dsimp only
  by_cases hfull : blockSize ≤ body.length
  · rw [if_pos hfull]
    exact iff_of_true (.inl rfl) (.inl hfull)
  · rw [if_neg hfull]
    by_cases hshort : min body.length blockSize ≠ 0 ∧ bodyErr = .eof
    · rw [if_pos hshort]
      exact iff_of_true (.inr (.inr rfl)) (.inr (.inl hshort.2))
    · rw [if_neg hshort]
      simp [hfull]

/-- A block is requested: the reply is accepted, and the buffer has its bytes, or there is an error that is no end of the file. -/
theorem httpReadAt_block (server : Server) (requests blockSize b : Nat) :
    match accepted blockSize (blockReply server requests blockSize b) with
    | some body => ∃ n err, (err = none ∨ err = some ReadError.eof) ∧
        httpReadAt server requests (List.replicate blockSize 0) ((b * blockSize : Nat) : Int) =
          (paddedBlock body blockSize 0 0, n, err)
    | none => ∃ buf n err, err ≠ ReadError.eof ∧
        httpReadAt server requests (List.replicate blockSize 0) ((b * blockSize : Nat) : Int) = (buf, n, some err) := by
  unfold httpReadAt
  rw [List.length_replicate, blockReply]
  dsimp only
  cases server requests ((b * blockSize : Nat) : Int) ((b * blockSize : Nat) + blockSize - 1) with
  | none => exact ⟨_, _, .noResponse, nofun, rfl⟩
  | answered statusCode body bodyErr =>
    dsimp only [accepted]
    by_cases hstatus : statusCode ≠ 206 ∧ statusCode ≠ 200
    · rw [if_pos hstatus, if_neg fun h => h.1.elim hstatus.1 hstatus.2]
      exact ⟨_, _, .unexpectedStatus statusCode, nofun, rfl⟩
    have hok : statusCode = 206 ∨ statusCode = 200 := by
      by_contra hno
      exact hstatus (not_or.1 hno)
    have hbuf := readFull_zeros body bodyErr blockSize
    have herr := readFull_err body bodyErr blockSize
    rw [if_neg hstatus]
    generalize readFull body bodyErr (List.replicate blockSize 0) = r at hbuf herr ⊢
    obtain ⟨buf, n, err⟩ := r
    obtain rfl : buf = paddedBlock body blockSize 0 0 := hbuf
    by_cases hend : blockSize ≤ body.length ∨ bodyErr = .eof ∨ bodyErr = .unexpectedEof
    · rw [if_pos ⟨hok, hend⟩]
      -- the end of the body counts as the end of the file
      rcases herr.2 hend with herr | herr | herr
      · obtain rfl : err = none := herr
        exact ⟨n, none, .inl rfl, rfl⟩
      · obtain rfl : err = some .eof := herr
        exact ⟨n, some .eof, .inr rfl, rfl⟩
      · obtain rfl : err = some .unexpectedEof := herr
        exact ⟨n, some .eof, .inr rfl, rfl⟩
    · rw [if_neg fun h => hend h.2]
      have hother := mt herr.1 hend
      cases err with
      | none => exact absurd (.inl rfl) hother
      | some err =>
        cases err with
        | eof => exact absurd (.inr (.inl rfl)) hother
        | unexpectedEof => exact absurd (.inr (.inr rfl)) hother
        | noResponse => exact ⟨_, n, .noResponse, nofun, rfl⟩
        | unexpectedStatus statusCode => exact ⟨_, n, .unexpectedStatus statusCode, nofun, rfl⟩
        | brokenBody => exact ⟨_, n, .brokenBody, nofun, rfl⟩

/-- A block that a harmless reply fills is that of the file, and no other reply fills it so. -/
theorem harmless_iff {response : Response} :
    Harmless file blockSize b response ↔
      ∀ body, accepted blockSize response = some body → paddedBlock body blockSize 0 0 = fileBlock file blockSize b := by
  refine forall₂_congr fun body _ => ?_
  rw [fileBlock, paddedBlock_eq_iff, Nat.zero_mul]
  simp only [Nat.zero_add]

/-- The replies to the requests that calls in the file can make are harmless. -/
def Trusted (file : Bytes) (blockSize : Nat) (server : Server) : Prop :=
  ∀ requests b, b * blockSize < file.length ∨ file = [] → Harmless file blockSize b (blockReply server requests blockSize b)

/-- What is asked of a server that has the file. -/
theorem Serves.trusted (h : Serves file server) : Trusted file blockSize server := by
  intro requests b _
  refine harmless_iff.2 fun body hbody => ?_
  have hanswer := h requests ((b * blockSize : Nat) : Int) ((b * blockSize : Nat) + blockSize - 1)
  rw [blockReply] at hbody
  generalize server requests ((b * blockSize : Nat) : Int) ((b * blockSize : Nat) + blockSize - 1) = response at hanswer hbody
  cases response with
  | none => cases hbody
  | answered statusCode body' bodyErr =>
    rw [accepted] at hbody
    obtain ⟨⟨hok, hend⟩, heq⟩ := Option.ite_none_right_eq_some.1 hbody
    obtain rfl : body' = body := Option.some.inj heq
    obtain ⟨-, hbegin, hwhole⟩ := hanswer hok.symm
    rw [rangeOf_block] at hbegin hwhole
    have hblock : body' = (file.drop (b * blockSize)).take blockSize := by
      rcases hend with hfull | rfl | rfl
      · exact hbegin.eq_of_length_le (Nat.le_trans (List.length_take_le _ _) hfull)
      · exact hwhole nofun
      · exact hwhole nofun
    rw [hblock, fileBlock, paddedBlock, paddedBlock, Nat.zero_mul, List.drop_zero, List.take_take, Nat.min_self]

/-! ## Blocks -/

theorem consistent_fresh (file : Bytes) (hpos : 0 < blockSize) (requests : Nat) : Consistent file (.fresh blockSize hpos requests) :=
  nofun

theorem Consistent.store (hc : Consistent file c) (b : Nat) : Consistent file (c.store b (fileBlock file c.blockSize b)) := by
  intro blk data hdata
  rw [CachedReaderAt.store] at hdata ⊢
  dsimp only at hdata ⊢
  by_cases hblk : blk = b
  · subst hblk
    rw [Function.update_self] at hdata
    exact ⟨b, rfl, (Option.some.inj hdata).symm⟩
  · rw [Function.update_of_ne hblk] at hdata
    exact hc blk data hdata

/-- A block that is not kept is requested; a reply that is accepted is kept. -/
theorem getBlock_of_accepted {body : Bytes} (hmissing : c.cache b = none)
    (hbody : accepted c.blockSize (blockReply server c.requests c.blockSize b) = some body) :
    getBlock server c b = (c.store b (paddedBlock body c.blockSize 0 0), .ok (paddedBlock body c.blockSize 0 0)) := by
  have hrequest := httpReadAt_block server c.requests c.blockSize b
  rw [Int.natCast_mul, hbody] at hrequest
  obtain ⟨n, err, rfl | rfl, hrequest⟩ := hrequest
  · rw [getBlock, hmissing, hrequest]
  · rw [getBlock, hmissing, hrequest]

theorem getBlock_of_refused (hmissing : c.cache b = none)
    (hrefused : accepted c.blockSize (blockReply server c.requests c.blockSize b) = none) :
    ∃ err, getBlock server c b = ({ c with requests := c.requests + 1 }, .error err) := by
  have hrequest := httpReadAt_block server c.requests c.blockSize b
  rw [Int.natCast_mul, hrefused] at hrequest
  obtain ⟨buf, n, err, hne, hrequest⟩ := hrequest
  refine ⟨err, ?_⟩
  rw [getBlock, hmissing, hrequest]
  cases err with
  | eof => exact absurd rfl hne
  | noResponse => rfl
  | unexpectedStatus statusCode => rfl
  | unexpectedEof => rfl
  | brokenBody => rfl

/-- What a turn reads from is the block of the file, and the kept blocks stay those of the file, whether the turn fails or not. -/
theorem getBlock_spec (h : Trusted file c.blockSize server) (hc : Consistent file c) (hb : b * c.blockSize < file.length ∨ file = []) :
    Consistent file (getBlock server c b).1 ∧ (getBlock server c b).1.blockSize = c.blockSize ∧
      ∀ data, (getBlock server c b).2 = .ok data → data = fileBlock file c.blockSize b := by
  cases hcache : c.cache b with
  | some data =>
    rw [getBlock, hcache]
    refine ⟨hc, rfl, fun data' hdata => ?_⟩
    obtain ⟨b', hb', hblock⟩ := hc b data hcache
    rw [← Except.ok.inj hdata, hblock, Int.ofNat.inj hb']
  | none =>
    cases hbody : accepted c.blockSize (blockReply server c.requests c.blockSize b) with
    | some body =>
      rw [getBlock_of_accepted hcache hbody, harmless_iff.1 (h c.requests b hb) body hbody]
      exact ⟨hc.store b, rfl, fun data hdata => (Except.ok.inj hdata).symm⟩
    | none =>
      obtain ⟨err, hrequest⟩ := getBlock_of_refused hcache hbody
      rw [hrequest]
      exact ⟨hc, rfl, nofun⟩

/-- A turn copies what the file has up to the end of the block or of the buffer. -/
theorem copyBlock_spec (hp : o + p.length ≤ file.length) (hstart : b * blockSize ≤ o + p.length) (hend : o < b * blockSize + blockSize)
    (hfilled : Filled file o p (b * blockSize - o)) :
    ∃ p' n, copyBlock blockSize p o b (fileBlock file blockSize b) = some (p', n) ∧ p'.length = p.length ∧
      ((b * blockSize - o : Nat) : Int) + n = (min p.length (b * blockSize + blockSize - o) : Nat) ∧
        Filled file o p' (min p.length (b * blockSize + blockSize - o)) := by
  obtain ⟨p', hcopy, hlen, hfilled'⟩ := hfilled.copyTo (j := min p.length (b * blockSize + blockSize - o))
    (by omega) (Nat.min_le_left _ _) (by omega)
  -- the bounds of what is copied, in the file
  obtain ⟨x, hx⟩ : ∃ x, x = max o (b * blockSize) := ⟨_, rfl⟩
  obtain ⟨y, hy⟩ : ∃ y, y = min (o + p.length) (b * blockSize + blockSize) := ⟨_, rfl⟩
  have hslice : slice (fileBlock file blockSize b) ((x : Int) - (b * blockSize : Nat)) (y - (b * blockSize : Nat)) =
      some ((file.drop x).take (y - x)) := slice_paddedBlock (by omega) (by omega) (by omega) (by omega)
  have hpiece : o + (b * blockSize - o) = x ∧ min p.length (b * blockSize + blockSize - o) - (b * blockSize - o) = y - x := by omega
  have hbounds : ((b * blockSize - o : Nat) : Int) = x - o ∧
      ((min p.length (b * blockSize + blockSize - o) : Nat) : Int) = y - o := by omega
  rw [hpiece.1, hpiece.2, hbounds.1, hbounds.2] at hcopy
  have hlenBlock : ((fileBlock file blockSize b).length : Int) = blockSize := congrArg _ (length_paddedBlock _ _ _ _)
  have hoff : (b : Int) * blockSize = (b * blockSize : Nat) := (Int.natCast_mul b blockSize).symm
  have hmax : max (o : Int) (b * blockSize : Nat) = x := by omega
  have hmin : min ((o : Int) + p.length) ((b * blockSize : Nat) + blockSize) = y := by omega
  refine ⟨p', y - x, ?_, hlen, by omega, hfilled'⟩
  simp only [copyBlock, hoff, hlenBlock, hmax, hmin, hslice, hcopy, Option.bind_eq_bind, Option.bind_some, Option.pure_def]

/-! ## Calls -/

/-- What is asked of a call: the blocks that are kept are those of the file, and a call that returns without an error has filled
the buffer with the bytes of the file. -/
structure CallRight (file : Bytes) (blockSize o len : Nat) (r : CachedReaderAt × Bytes × Outcome) : Prop where
  consistent : Consistent file r.1
  size : r.1.blockSize = blockSize
  returns : r.2.2 ≠ .panicked
  bytes : ∀ read, r.2.2 = .returned read none → read = len ∧ r.2.1 = (file.drop o).take len

/-- From block `b` on the loop does what is asked of a call. -/
theorem readBlocks_spec (h : Trusted file blockSize server) {left : Nat} (hc : Consistent file c) (hsize : c.blockSize = blockSize)
    (hp : o + p.length ≤ file.length) (hbegin : ∀ j < left, (b + j) * blockSize < o + p.length ∨ (b + j) * blockSize = 0)
    (hend : o < b * blockSize + blockSize) (hlast : o + p.length ≤ (b + left) * blockSize ∨ p.length = 0)
    (hfilled : Filled file o p (min p.length (b * blockSize - o))) :
    CallRight file blockSize o p.length (readBlocks server o left b (min p.length (b * blockSize - o) : Nat) c p) := by
  induction left generalizing b c p with
  | zero =>
    have hfull : min p.length (b * blockSize - o) = p.length := by
      rw [Nat.add_zero] at hlast
      omega
    rw [hfull] at hfilled ⊢
    refine ⟨hc, hsize, nofun, fun read hread => ?_⟩
    obtain ⟨rfl, -⟩ := Outcome.returned.inj hread
    exact ⟨rfl, hfilled.eq_take⟩
  | succ left ih =>
    have hstart : b * blockSize < o + p.length ∨ b * blockSize = 0 := hbegin 0 (Nat.succ_pos left)
    have hb : b * blockSize < file.length ∨ file = [] := by
      rw [← List.length_eq_zero_iff]
      omega
    have hread : min p.length (b * blockSize - o) = b * blockSize - o := by omega
    rw [hread] at hfilled ⊢
    obtain ⟨hkept, hkeptSize, hdata⟩ := getBlock_spec (hsize ▸ h) hc (hsize.symm ▸ hb)
    rw [hsize] at hkeptSize hdata
    rw [readBlocks]
    generalize getBlock server c b = r at hkept hkeptSize hdata ⊢
    obtain ⟨c', result⟩ := r
    cases result with
    | error err => exact ⟨hkept, hkeptSize, nofun, nofun⟩
    | ok data =>
      obtain rfl : data = fileBlock file blockSize b := hdata data rfl
      obtain ⟨p', n, hcopy, hlen, hn, hfilled'⟩ := copyBlock_spec hp (by omega) hend hfilled
      have hnext : b * blockSize + blockSize = (b + 1) * blockSize := (Nat.succ_mul b blockSize).symm
      rw [hnext, ← hlen] at hfilled' hn
      dsimp only at hkept hkeptSize ⊢
      rw [hkeptSize, hcopy]
      dsimp only
      rw [hn, ← hlen]
      refine ih hkept hkeptSize (by omega) (fun j hj => ?_) (Nat.lt_add_right _ (hnext ▸ hend)) ?_ hfilled'
      · have hj' := hbegin (j + 1) (Nat.succ_lt_succ hj)
        rwa [← Nat.add_assoc, Nat.add_right_comm, ← hlen] at hj'
      · rwa [← Nat.add_assoc, Nat.add_right_comm, ← hlen] at hlast

/-- The blocks of a call: they begin before its end, or at that of the file, and the last one ends behind it. -/
theorem blocks_of_call (hpos : 0 < blockSize) (o len : Nat) : ∃ left,
    (((o : Int) + len - 1).tdiv blockSize + 1 - (o : Int).tdiv blockSize).toNat = left ∧
      (∀ j < left, (o / blockSize + j) * blockSize < o + len ∨ (o / blockSize + j) * blockSize = 0) ∧
      (o + len ≤ (o / blockSize + left) * blockSize ∨ len = 0) := by
  have hstart : (o : Int).tdiv blockSize = (o / blockSize : Nat) := Int.ofNat_tdiv o blockSize
  refine ⟨_, rfl, ?_⟩
  rw [hstart]
  rcases Nat.eq_zero_or_pos len with rfl | hlen
  · -- nothing is read; the block at the offset may still be requested
    refine ⟨fun j hj => ?_, .inr rfl⟩
    rcases Nat.eq_zero_or_pos o with rfl | ho
    · have hlast : (((0 : Nat) : Int) + (0 : Nat) - 1).tdiv blockSize ≤ ((0 : Nat) : Int).tdiv blockSize :=
        Int.tdiv_le_tdiv (Int.natCast_pos.2 hpos) (by omega)
      rw [hstart, Nat.zero_div] at hlast
      rw [Nat.zero_div] at hj
      obtain rfl : j = 0 := by omega
      exact .inr (by rw [Nat.zero_div, Nat.zero_mul])
    · obtain ⟨k, hk⟩ : ∃ k, o = k + 1 := ⟨o - 1, by omega⟩
      have hend : ((o : Int) + (0 : Nat) - 1).tdiv blockSize = (k / blockSize : Nat) := by
        have hk' : (o : Int) + (0 : Nat) - 1 = k := by omega
        rw [hk', Int.ofNat_tdiv]
      have hle : k / blockSize ≤ o / blockSize := Nat.div_le_div_right (by omega)
      rw [hend] at hj
      obtain ⟨rfl, heq⟩ : j = 0 ∧ o / blockSize = k / blockSize := by omega
      have hmul := Nat.div_mul_le_self k blockSize
      rw [Nat.add_zero, heq]
      exact .inl (by omega)
  · obtain ⟨k, hk⟩ : ∃ k, o + len = k + 1 := ⟨o + len - 1, by omega⟩
    have hend : ((o : Int) + len - 1).tdiv blockSize = (k / blockSize : Nat) := by
      have hk' : (o : Int) + len - 1 = k := by omega
      rw [hk', Int.ofNat_tdiv]
    have hle : o / blockSize ≤ k / blockSize := Nat.div_le_div_right (by omega)
    rw [hend]
    constructor
    · intro j hj
      have hj' : o / blockSize + j ≤ k / blockSize := by omega
      have hmul := Nat.le_trans (Nat.mul_le_mul_right blockSize hj') (Nat.div_mul_le_self k blockSize)
      exact .inl (by omega)
    · have hsum : o / blockSize + ((k / blockSize : Nat) + 1 - (o / blockSize : Nat) : Int).toNat = k / blockSize + 1 := by omega
      have hlt := Nat.lt_div_mul_add hpos (a := k)
      rw [hsum, Nat.succ_mul]
      exact .inl (by omega)

/-- A call in the file. -/
theorem readAt_spec (h : Trusted file c.blockSize server) (hc : Consistent file c) (hp : o + p.length ≤ file.length) :
    CallRight file c.blockSize o p.length (readAt server c p o) := by
  obtain ⟨left, hleft, hbegin, hlast⟩ := blocks_of_call c.blockSize_pos o p.length
  have hstart : (o : Int).tdiv c.blockSize = (o / c.blockSize : Nat) := Int.ofNat_tdiv o c.blockSize
  have hle : o / c.blockSize * c.blockSize ≤ o := Nat.div_mul_le_self o c.blockSize
  have hlt : o < o / c.blockSize * c.blockSize + c.blockSize := Nat.lt_div_mul_add c.blockSize_pos
  have hzero : min p.length (o / c.blockSize * c.blockSize - o) = 0 := by omega
  have hblocks := readBlocks_spec (p := p) (b := o / c.blockSize) h hc rfl hp hbegin hlt hlast (hzero ▸ filled_zero file o p)
  rw [hzero] at hblocks
  rw [readAt, hleft, hstart]
  exact hblocks

theorem readCalls_spec (h : Trusted file blockSize server) (hc : Consistent file c) (hsize : c.blockSize = blockSize)
    {calls : List Call} (hcalls : ∀ call ∈ calls, call.InFile file) :
    Consistent file (readCalls server c calls).1 ∧ List.Forall₂ (Right file) calls (readCalls server c calls).2 := by
  induction calls generalizing c with
  | nil => exact ⟨hc, .nil⟩
  | cons call calls ih =>
    obtain ⟨hoff, hend⟩ := hcalls call List.mem_cons_self
    obtain ⟨o, ho⟩ := Int.eq_ofNat_of_zero_le hoff
    have htoNat : call.off.toNat = o := by rw [ho, Int.toNat_natCast]
    have hcall : CallRight file c.blockSize o call.p.length (readAt server c call.p call.off) := by
      rw [ho] at hend ⊢
      exact readAt_spec (hsize ▸ h) hc (by omega)
    obtain ⟨hconsistent, hreplies⟩ :=
      ih hcall.consistent (hcall.size.trans hsize) fun call' hcall' => hcalls call' (List.mem_cons_of_mem call hcall')
    refine ⟨hconsistent, .cons ⟨hcall.returns, fun read hread => ?_⟩ hreplies⟩
    rw [htoNat]
    exact hcall.bytes read hread

/-- After any calls in the file, whatever failed, the blocks that are kept are those of the file, and each call that succeeded gave
the bytes of the file. -/
theorem readCalls_right (file : Bytes) (server : Server) (blockSize : Nat) (calls : List Call) (h : Serves file server)
    (hpos : 0 < blockSize) (hcalls : ∀ call ∈ calls, call.InFile file) :
    Consistent file (readCalls server (.new blockSize hpos) calls).1 ∧
      List.Forall₂ (Right file) calls (readCalls server (.new blockSize hpos) calls).2 :=
  readCalls_spec h.trusted (consistent_fresh file hpos 0) rfl hcalls

/-- A server that does not answer the first request. -/
def flakyServer (file : Bytes) : Server := fun requests off last =>
  if requests = 0 then .none else .answered 206 (rangeOf file off last) .eof

theorem serves_flakyServer (file : Bytes) : Serves file (flakyServer file) := by
  intro requests off last
  rw [flakyServer]
  split
  · trivial
  · exact fun _ => ⟨rfl, List.prefix_refl _, fun _ => rfl⟩

/-- Reads across blocks of an image of seven bytes. -/
def imageCalls : List Call := [⟨[0, 0, 0], 1⟩, ⟨[0, 0, 0, 0, 0], 2⟩, ⟨[0, 0, 0], 1⟩]

theorem readCalls_right_image :
    Consistent [1, 2, 3, 4, 5, 6, 7] (readCalls (flakyServer [1, 2, 3, 4, 5, 6, 7]) (.new 2 (by decide)) imageCalls).1 ∧
      List.Forall₂ (Right [1, 2, 3, 4, 5, 6, 7]) imageCalls
        (readCalls (flakyServer [1, 2, 3, 4, 5, 6, 7]) (.new 2 (by decide)) imageCalls).2 := by
  refine readCalls_right [1, 2, 3, 4, 5, 6, 7] (flakyServer [1, 2, 3, 4, 5, 6, 7]) 2 imageCalls (serves_flakyServer _) (by decide) ?_
  simp [imageCalls, Call.InFile]

/-- The first read fails, and its repetition succeeds. -/
example : (readCalls (flakyServer [1, 2, 3, 4, 5, 6, 7]) (.new 2 (by decide)) imageCalls).2.map (fun reply => (reply.p, reply.outcome)) =
    [([0, 0, 0], .returned 0 (some .noResponse)), ([3, 4, 5, 6, 7], .returned 5 none), ([2, 3, 4], .returned 3 none)] := by decide

/-! ## Bad replies -/

/-- A call whose buffer is in one block leaves the reader as its turn does. -/
theorem readBlocks_one_fst (server : Server) (off read : Int) (blk : Int) :
    (readBlocks server off 1 blk read c p).1 = (getBlock server c blk).1 := by
  rw [readBlocks]
  generalize getBlock server c blk = r
  obtain ⟨c', result⟩ := r
  cases result with
  | error err => rfl
  | ok data =>
    dsimp only
    cases copyBlock c'.blockSize p off blk data with
    | none => rfl
    | some copied => rfl

/-- A call for the first byte of a block. -/
theorem readCalls_firstByte (server : Server) (hsize : c.blockSize = blockSize) (b : Nat) :
    (readCalls server c [⟨[0], ((b * blockSize : Nat) : Int)⟩]).1 = (getBlock server c b).1 := by
  have hstart : ((b * blockSize : Nat) : Int).tdiv c.blockSize = b := by
    rw [← hsize]
    exact (Int.ofNat_tdiv _ _).trans (congrArg _ (Nat.mul_div_cancel b c.blockSize_pos))
  have hend : ((b * blockSize : Nat) : Int) + ([0] : Bytes).length - 1 = (b * blockSize : Nat) := by
    rw [List.length_singleton]
    omega
  have hone : ((b : Int) + 1 - b).toNat = 1 := by omega
  have hread : (readAt server c [0] ((b * blockSize : Nat) : Int)).1 = (getBlock server c b).1 := by
    rw [readAt, hend, hstart, hone]
    exact readBlocks_one_fst server _ 0 b
  exact hread

theorem trusted_of_sendsPart (h : SendsPart file server)
    (hharmless : ∀ requests b, b * blockSize < file.length → Harmless file blockSize b (blockReply server requests blockSize b)) :
    Trusted file blockSize server := by
  intro requests b hb
  rcases hb with hb | rfl
  · exact hharmless requests b hb
  -- of an empty file nothing is sent
  · intro body hbody i _
    have hsends := h requests ((b * blockSize : Nat) : Int) ((b * blockSize : Nat) + blockSize - 1)
    rw [blockReply] at hbody
    generalize server requests ((b * blockSize : Nat) : Int) ((b * blockSize : Nat) + blockSize - 1) = response at hsends hbody
    cases response with
    | none => cases hbody
    | answered statusCode body' bodyErr =>
      rw [accepted] at hbody
      obtain ⟨⟨hok, -⟩, heq⟩ := Option.ite_none_right_eq_some.1 hbody
      obtain rfl : body' = body := Option.some.inj heq
      have hnil : body' <+: [] := by
        rcases hok with hok | hok
        · have hrange := hsends.1 hok
          rwa [rangeOf, List.drop_nil, List.take_nil] at hrange
        · exact hsends.2 hok
      rw [List.prefix_nil.1 hnil]
      rfl

/-- A reader keeps and returns nothing but the bytes of the file exactly if every reply to the request for a block is harmless. -/
theorem readsTrue_iff (file : Bytes) (server : Server) (blockSize : Nat) (hpos : 0 < blockSize) (h : SendsPart file server) :
    ReadsTrue file server blockSize hpos ↔
      ∀ requests b, b * blockSize < file.length → Harmless file blockSize b (blockReply server requests blockSize b) := by
  constructor
  · intro htrue requests b hb
    refine harmless_iff.2 fun body hbody => ?_
    have hin : Call.InFile file ⟨[0], ((b * blockSize : Nat) : Int)⟩ := by
      refine ⟨Int.natCast_nonneg _, ?_⟩
      change ((b * blockSize : Nat) : Int) + (1 : Nat) ≤ file.length
      omega
    obtain ⟨hconsistent, -⟩ := htrue requests [⟨[0], ((b * blockSize : Nat) : Int)⟩] fun call hcall => List.mem_singleton.1 hcall ▸ hin
    have hrequest : getBlock server (.fresh blockSize hpos requests) b = _ := getBlock_of_accepted rfl hbody
    have hfirst : (readCalls server (.fresh blockSize hpos requests) [⟨[0], ((b * blockSize : Nat) : Int)⟩]).1 =
        (getBlock server (.fresh blockSize hpos requests) b).1 := readCalls_firstByte server rfl b
    rw [hfirst, hrequest] at hconsistent
    -- the reply is kept under the number of its block
    obtain ⟨b', hb', hblock⟩ := hconsistent b _ (Function.update_self _ _ _)
    rwa [← Int.ofNat.inj hb'] at hblock
  · intro hharmless requests calls hcalls
    exact readCalls_spec (trusted_of_sendsPart h hharmless) (consistent_fresh file hpos requests) rfl hcalls

/-- A server whose connection is closed after the first byte. -/
def cutServer (file : Bytes) : Server := fun _ off last => .answered 206 ((rangeOf file off last).take 1) .unexpectedEof

theorem sendsPart_cutServer (file : Bytes) : SendsPart file (cutServer file) := fun _ _ _ =>
  ⟨fun _ => List.take_prefix _ _, nofun⟩

/-- Two bytes are read, of which the second is a zero. -/
theorem readsTrue_false :
    ¬ ∀ file server blockSize hpos, SendsPart file server → ReadsTrue file server blockSize hpos := by
  intro h
  obtain ⟨-, hreplies⟩ := h [1, 2] (cutServer [1, 2]) 2 (by decide) (sendsPart_cutServer _) 0 [⟨[0, 0], 0⟩] (by simp [Call.InFile])
  have hbytes := (List.forall₂_cons.1 hreplies).1.bytes 2 (by decide)
  exact absurd hbytes.2 (by decide)

theorem readsTrue_iff_cut :
    ReadsTrue [1, 2] (cutServer [1, 2]) 2 (by decide) ↔
      ∀ requests b, b * 2 < [1, 2].length → Harmless [1, 2] 2 b (blockReply (cutServer [1, 2]) requests 2 b) :=
  readsTrue_iff [1, 2] (cutServer [1, 2]) 2 (by decide) (sendsPart_cutServer _)

end RemoteIso

end Anylinuxfs
