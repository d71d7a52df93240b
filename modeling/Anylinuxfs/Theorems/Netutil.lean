import Anylinuxfs.Lemmas.NetutilSearch

/-!
# What the picker returns

For every prefix length, every pool and every list of used networks: when `pick_available_network_in_pool` returns at all
(`pickReturns_iff`), when what it returns lies in the pool (`pickSound_iff`), and when its error means that the pool is full
(`pickComplete_iff`). None of the three holds of all inputs, and each `…_false` is an input on which it fails.

All three follow from `pick_outcome`, which says how the search ends in terms of the conflict of the pool's address: the largest
block among the candidate the search begins with and the used networks that contain it.
-/

namespace Anylinuxfs

open Cidr Loop

/-- The block of the prefix length around the pool's address. -/
def around (pool : Ipv4Net) (q : Nat) : Ipv4Net := ⟨pool.addr, min q 32, Nat.min_le_right q 32⟩

/-- The prefix length of the conflict of the pool's address. -/
def poolConflict (prefixLen : Nat) (used : List Ipv4Net) (pool : Ipv4Net) : Nat := coverLen used prefixLen pool.addr

/-- The pool's address is the first of its conflict, so the search can come back to it. -/
def AtConflictStart (prefixLen : Nat) (used : List Ipv4Net) (pool : Ipv4Net) : Prop :=
  conflictStart used prefixLen pool.addr = pool.addr

instance (prefixLen : Nat) (used : List Ipv4Net) (pool : Ipv4Net) : Decidable (AtConflictStart prefixLen used pool) :=
  inferInstanceAs (Decidable (_ = _))

/-- The prefix length of the largest block that the search looks at: the block twice the conflict, or, when the search can come
back to the pool's address, the block of twelve bits if that is larger. -/
def searchedLen (prefixLen : Nat) (used : List Ipv4Net) (pool : Ipv4Net) : Nat :=
  if AtConflictStart prefixLen used pool then min (poolConflict prefixLen used pool - 1) 12
  else poolConflict prefixLen used pool - 1

section

variable {aggregate : List Ipv4Net → List Ipv4Net} {prefixLen : Nat} {used : List Ipv4Net} {pool : Ipv4Net}

/-- All addresses of a network lie in a region exactly when the region contains the network. -/
theorem inPool_iff {r n : Ipv4Net} (hle : r.prefixLen ≤ n.prefixLen) :
    InPool r n ↔ Same 32 r.prefixLen r.addr n.addr := by
  constructor
  · intro h
    exact Net.mem_iff.1 (h n.addr (Net.mem_iff.2 (Same.refl _ _ _)))
  · intro hs y hy
    exact Net.mem_iff.2 (hs.trans ((Net.mem_iff.1 hy).mono hle))

theorem hasFree_iff {r : Ipv4Net} (hr : r.prefixLen ≤ prefixLen) (hp : prefixLen ≤ 32) :
    HasFree used prefixLen r ↔ ¬NoFree used prefixLen r.addr r.prefixLen := by
  constructor
  · rintro ⟨b, ⟨rfl, hal⟩, hin, hfree⟩ hno
    refine hno b.addr ?_ ((inPool_iff hr).1 hin) (freeNet_iff.1 hfree)
    exact (congrArg Fin.val hal).symm
  · intro h
    simp only [NoFree, Classical.not_forall, Classical.not_not] at h
    obtain ⟨y, hal, hs, hfree⟩ := h
    have hy : y < 2 ^ 32 := by
      have h1 := ((Net.mem_iff (n := r)).2 hs).2
      have h2 := r.broadcast.isLt
      omega
    refine ⟨⟨⟨y, hy⟩, prefixLen, hp⟩, ⟨rfl, Fin.ext hal.symm⟩, (inPool_iff hr).2 hs, freeNet_iff.2 hfree⟩

theorem hasFree_around_iff {q : Nat} (hq : q ≤ prefixLen) (hp : prefixLen ≤ 32) :
    HasFree used prefixLen (around pool q) ↔ ¬NoFree used prefixLen pool.addr q := by
  have hmin : min q 32 = q := by omega
  rw [hasFree_iff (by simp only [around]; omega) hp]
  simp only [around, hmin]

/-! ## How the search ends -/

/-- The ways the search ends, for a prefix length that the pool allows. -/
inductive SearchEnd (aggregate : List Ipv4Net → List Ipv4Net) (prefixLen : Nat) (used : List Ipv4Net) (pool base : Ipv4Net) :
    Prop where
  /-- The candidate the search begins with is free. -/
  | atOnce : FreeAt used prefixLen pool.addr →
      EndsIn (pickStep aggregate prefixLen used base) (.outer (prefixLen - 1) base) (.ok base) →
      SearchEnd aggregate prefixLen used pool base
  /-- A used network is the whole address space. -/
  | underflow : ¬FreeAt used prefixLen pool.addr → poolConflict prefixLen used pool = 0 →
      EndsIn (pickStep aggregate prefixLen used base) (.outer (prefixLen - 1) base) .panic →
      SearchEnd aggregate prefixLen used pool base
  /-- A free block is found, in the smallest of the searched blocks that has one. -/
  | found (n : Ipv4Net) (r : Nat) : ¬FreeAt used prefixLen pool.addr → poolConflict prefixLen used pool ≠ 0 →
      EndsIn (pickStep aggregate prefixLen used base) (.outer (prefixLen - 1) base) (.ok n) → Good used prefixLen n →
      searchedLen prefixLen used pool ≤ r → Same 32 r pool.addr n.addr →
      (∀ r', r < r' → r' < poolConflict prefixLen used pool → NoFree used prefixLen pool.addr r') →
      SearchEnd aggregate prefixLen used pool base
  /-- The search came back to the pool's address in the largest block it looks at. -/
  | exhausted : ¬FreeAt used prefixLen pool.addr → poolConflict prefixLen used pool ≠ 0 →
      AtConflictStart prefixLen used pool →
      EndsIn (pickStep aggregate prefixLen used base) (.outer (prefixLen - 1) base) (.err .exhausted) →
      NoFree used prefixLen pool.addr (searchedLen prefixLen used pool) → SearchEnd aggregate prefixLen used pool base
  /-- The search goes round for ever. -/
  | endless : ¬FreeAt used prefixLen pool.addr → poolConflict prefixLen used pool ≠ 0 →
      ¬AtConflictStart prefixLen used pool →
      Diverges (pickStep aggregate prefixLen used base) (.outer (prefixLen - 1) base) →
      NoFree used prefixLen pool.addr (searchedLen prefixLen used pool) → SearchEnd aggregate prefixLen used pool base

/-- How the picker ends, for a prefix length that the pool allows. -/
theorem pick_outcome (prefixLen : Nat) (used : List Ipv4Net) (pool : Ipv4Net) (hagg : IsCover aggregate) (hp : prefixLen ≤ 32) :
    SearchEnd aggregate prefixLen used pool ⟨pool.addr, prefixLen, hp⟩ := by
  by_cases hx : FreeAt used prefixLen pool.addr
  · exact .atOnce hx (EndsIn.of_inr (outerStep_free hx))
  by_cases h0 : coverLen used prefixLen pool.addr = 0
  · exact .underflow hx h0 (EndsIn.of_inr (outerStep_underflow hagg hx h0))
  obtain ⟨next, hl, hnp, hsweep⟩ := search_start ⟨pool.addr, prefixLen, hp⟩ hagg hp rfl hx h0
  by_cases hhit : AtConflictStart prefixLen used pool
  · have hlen : searchedLen prefixLen used pool = min (poolConflict prefixLen used pool - 1) 12 := if_pos hhit
    rcases search_hit ⟨pool.addr, prefixLen, hp⟩ hagg hp rfl hx hhit hnp hsweep with ⟨n, r, he, hg, h1, h2, hsame, hall⟩ | ⟨he, hno⟩
    · refine .found n r hx h0 (hl.endsIn he) hg (by rw [hlen]; exact h1) hsame ?_
      intro r' hr hr'
      exact hall r' hr (Nat.le_sub_one_of_lt hr')
    · exact .exhausted hx h0 hhit (hl.endsIn he) (by rw [hlen]; exact hno)
  · have hlen : searchedLen prefixLen used pool = poolConflict prefixLen used pool - 1 := if_neg hhit
    rcases search_miss ⟨pool.addr, prefixLen, hp⟩ hagg hp hx hhit hnp hsweep with ⟨n, he, hg, hsame⟩ | ⟨hno, hd⟩
    · refine .found n _ hx h0 (hl.endsIn he) hg (Nat.le_of_eq hlen) hsame ?_
      intro r' hr hr'
      have := Nat.le_sub_one_of_lt hr'
      exact absurd hr (Nat.not_lt.2 this)
    · exact .endless hx h0 hhit (hl.diverges hd) (by rw [hlen]; exact hno)

/-- A prefix length that the pool does not allow is an error. -/
theorem pick_invalid (aggregate : List Ipv4Net → List Ipv4Net) (used : List Ipv4Net)
    (h : prefixLen ≤ pool.prefixLen ∨ 32 < prefixLen) (fuel : Nat) :
    ∃ e, pickAvailableNetworkInPool aggregate prefixLen used pool fuel = some (.err e) := by
  unfold pickAvailableNetworkInPool
  by_cases hle : prefixLen ≤ pool.prefixLen
  · exact ⟨_, if_pos hle⟩
  · have hnew : Net.new pool.addr prefixLen = none := dif_neg (by omega)
    rw [if_neg hle, hnew]
    exact ⟨_, rfl⟩

/-- A prefix length that the pool allows leads to the search. -/
theorem pick_valid (h1 : pool.prefixLen < prefixLen) (h2 : prefixLen ≤ 32) (fuel : Nat) :
    pickAvailableNetworkInPool aggregate prefixLen used pool fuel =
      runFor (pickStep aggregate prefixLen used ⟨pool.addr, prefixLen, h2⟩) fuel
        (.outer (prefixLen - 1) ⟨pool.addr, prefixLen, h2⟩) := by
  have hnew : Net.new pool.addr prefixLen = some ⟨pool.addr, prefixLen, h2⟩ := dif_pos h2
  unfold pickAvailableNetworkInPool
  rw [if_neg (Nat.not_le.2 h1), hnew]

/-- A result of the picker is the result of the search. -/
theorem pick_unique (h1 : pool.prefixLen < prefixLen) (h2 : prefixLen ≤ 32) {fuel : Nat} {r r' : PickResult}
    (h : pickAvailableNetworkInPool aggregate prefixLen used pool fuel = some r)
    (he : EndsIn (pickStep aggregate prefixLen used ⟨pool.addr, prefixLen, h2⟩)
      (.outer (prefixLen - 1) ⟨pool.addr, prefixLen, h2⟩) r') : r = r' := by
  rw [pick_valid h1 h2] at h
  exact EndsIn.unique ⟨fuel, h⟩ he

/-- An end of the search is an end of the picker. -/
theorem pick_of_endsIn (h1 : pool.prefixLen < prefixLen) (h2 : prefixLen ≤ 32) {r : PickResult}
    (he : EndsIn (pickStep aggregate prefixLen used ⟨pool.addr, prefixLen, h2⟩)
      (.outer (prefixLen - 1) ⟨pool.addr, prefixLen, h2⟩) r) :
    ∃ fuel, pickAvailableNetworkInPool aggregate prefixLen used pool fuel = some r := by
  obtain ⟨fuel, hf⟩ := he
  exact ⟨fuel, by rw [pick_valid h1 h2, hf]⟩

theorem searchedLen_lt (h0 : poolConflict prefixLen used pool ≠ 0) : searchedLen prefixLen used pool < prefixLen := by
  have hle := coverLen_le used prefixLen pool.addr
  unfold searchedLen poolConflict at *
  split <;> omega

theorem hasFree_searched_iff (hp : prefixLen ≤ 32) (h0 : poolConflict prefixLen used pool ≠ 0) :
    HasFree used prefixLen (around pool (searchedLen prefixLen used pool)) ↔
      ¬NoFree used prefixLen pool.addr (searchedLen prefixLen used pool) :=
  hasFree_around_iff (Nat.le_of_lt (searchedLen_lt h0)) hp

/-- The block that is found lies in the searched one, which therefore has a free block. -/
theorem not_noFree_of_good {q r : Nat} {n : Ipv4Net} (hg : Good used prefixLen n) (hqr : q ≤ r)
    (hs : Same 32 r pool.addr n.addr) : ¬NoFree used prefixLen pool.addr q :=
  fun hno => hno n.addr hg.aligned (hs.mono hqr) hg.free

/-! ## When the picker returns -/

/-- The picker returns exactly when the prefix length is an error, the first candidate is free, or, with no used network the
whole address space, the search can come back to the pool's address or finds a free block beside the conflict. -/
theorem pickReturns_iff (hagg : IsCover aggregate) (prefixLen : Nat) (used : List Ipv4Net) (pool : Ipv4Net) :
    PickReturns aggregate prefixLen used pool ↔
      prefixLen ≤ pool.prefixLen ∨ 32 < prefixLen ∨ FreeAt used prefixLen pool.addr ∨
        (poolConflict prefixLen used pool ≠ 0 ∧ (AtConflictStart prefixLen used pool ∨
          HasFree used prefixLen (around pool (poolConflict prefixLen used pool - 1)))) := by
  by_cases hinv : prefixLen ≤ pool.prefixLen ∨ 32 < prefixLen
  · obtain ⟨e, he⟩ := pick_invalid aggregate used hinv 0
    refine ⟨fun _ => ?_, fun _ => ⟨0, _, he, by simp⟩⟩
    rcases hinv with h | h
    · exact Or.inl h
    · exact Or.inr (Or.inl h)
  have h1 : pool.prefixLen < prefixLen := Nat.lt_of_not_le fun h => hinv (Or.inl h)
  have h2 : prefixLen ≤ 32 := Nat.le_of_not_lt fun h => hinv (Or.inr h)
  have hreturns : ∀ {r}, r ≠ .panic → EndsIn (pickStep aggregate prefixLen used ⟨pool.addr, prefixLen, h2⟩)
      (.outer (prefixLen - 1) ⟨pool.addr, prefixLen, h2⟩) r → PickReturns aggregate prefixLen used pool := by
    intro r hr he
    obtain ⟨fuel, hf⟩ := pick_of_endsIn h1 h2 he
    exact ⟨fuel, r, hf, hr⟩
  cases pick_outcome prefixLen used pool hagg h2 with
  | atOnce hx he => exact iff_of_true (hreturns (by simp) he) (Or.inr (Or.inr (Or.inl hx)))
  | underflow hx h0 he =>
    refine iff_of_false ?_ ?_
    · rintro ⟨fuel, r, hf, hr⟩
      exact hr (pick_unique h1 h2 hf he)
    · rintro (h | h | h | ⟨h, -⟩)
      · exact hinv (Or.inl h)
      · exact hinv (Or.inr h)
      · exact hx h
      · exact h h0
  | found n r hx h0 he hg hr hs hall =>
    refine iff_of_true (hreturns (by simp) he) (Or.inr (Or.inr (Or.inr ⟨h0, ?_⟩)))
    by_cases hhit : AtConflictStart prefixLen used pool
    · exact Or.inl hhit
    · rw [searchedLen, if_neg hhit] at hr
      have hle : poolConflict prefixLen used pool - 1 ≤ prefixLen :=
        Nat.le_trans (Nat.sub_le _ _) (coverLen_le used prefixLen pool.addr)
      exact Or.inr ((hasFree_around_iff hle h2).2 (not_noFree_of_good hg hr hs))
  | exhausted hx h0 hhit he hno =>
    exact iff_of_true (hreturns (by simp) he) (Or.inr (Or.inr (Or.inr ⟨h0, Or.inl hhit⟩)))
  | endless hx h0 hmiss hd hno =>
    refine iff_of_false ?_ ?_
    · rintro ⟨fuel, r, hf, -⟩
      rw [pick_valid h1 h2, hd fuel] at hf
      cases hf
    · have hlen := hasFree_searched_iff h2 h0
      rw [searchedLen, if_neg hmiss] at hlen hno
      rintro (h | h | h | ⟨-, h | h⟩)
      · exact hinv (Or.inl h)
      · exact hinv (Or.inr h)
      · exact hx h
      · exact hmiss h
      · exact hlen.1 h hno

/-- With `172.27.1.0/24` used, a search for a network of that size in the default pool can come back to the pool's address. -/
theorem pickReturns_defaultPool : PickReturns minimalCover 24 [⟨ipv4 172 27 1 0, 24, by decide⟩] defaultVmnetPool :=
  (pickReturns_iff isCover_minimalCover 24 [⟨ipv4 172 27 1 0, 24, by decide⟩] defaultVmnetPool).2
    (Or.inr (Or.inr (Or.inr ⟨by decide, Or.inl (by decide)⟩)))

/-- With `172.27.0.0/16` and `172.26.0.0/16` used, a search for a network of that size in the default pool goes to and fro between
the two for ever: its start, `172.27.1.0/16`, is no candidate it comes back to. -/
theorem pickReturns_false : ¬ ∀ aggregate : List Ipv4Net → List Ipv4Net, IsCover aggregate →
    ∀ prefixLen used pool, PickReturns aggregate prefixLen used pool := by
  intro hall
  obtain ⟨fuel, r, hf, hr⟩ := hall minimalCover isCover_minimalCover 16
    [⟨ipv4 172 27 0 0, 16, by decide⟩, ⟨ipv4 172 26 0 0, 16, by decide⟩] defaultVmnetPool
  have hno : NoFree [⟨ipv4 172 27 0 0, 16, by decide⟩, ⟨ipv4 172 26 0 0, 16, by decide⟩] 16 defaultVmnetPool.addr 15 := by
    intro y _ hs hfree
    have h1 := hfree ⟨ipv4 172 27 0 0, 16, by decide⟩ (by simp)
    have h2 := hfree ⟨ipv4 172 26 0 0, 16, by decide⟩ (by simp)
    simp only [Same, size, defaultVmnetPool, ipv4, Fin.val_ofNat, Nat.min_self, Nat.reduceSub] at hs h1 h2
    omega
  cases pick_outcome 16 [⟨ipv4 172 27 0 0, 16, by decide⟩, ⟨ipv4 172 26 0 0, 16, by decide⟩] defaultVmnetPool
      isCover_minimalCover (by decide) with
  | atOnce hx _ => exact hx ⟨ipv4 172 27 0 0, 16, by decide⟩ (by simp) (by decide)
  | underflow _ h0 _ => exact absurd h0 (by decide)
  | found n q _ _ _ hg hq hs _ => exact not_noFree_of_good hg hq hs hno
  | exhausted _ _ hhit _ _ => exact absurd hhit (by decide)
  | endless _ _ _ hd _ =>
    rw [pick_valid (by decide) (by decide), hd fuel] at hf
    cases hf

/-! ## Where the result lies -/

/-- What is asked of a result: the requested prefix length, every address in the pool, no address in common with a used
network. -/
def PickSound (aggregate : List Ipv4Net → List Ipv4Net) (prefixLen : Nat) (used : List Ipv4Net) (pool : Ipv4Net) : Prop :=
  ∀ fuel n, pickAvailableNetworkInPool aggregate prefixLen used pool fuel = some (.ok n) →
    n.prefixLen = prefixLen ∧ InPool pool n ∧ FreeNet used n

/-- A pool with a free block has one in every block around its address that is no smaller than the conflict. -/
theorem lt_poolConflict_of_hasFree (h1 : pool.prefixLen < prefixLen) (h2 : prefixLen ≤ 32)
    (hx : ¬FreeAt used prefixLen pool.addr) (h : HasFree used prefixLen pool) :
    pool.prefixLen < poolConflict prefixLen used pool := by
  refine Nat.lt_of_not_le fun hle => (hasFree_iff (Nat.le_of_lt h1) h2).1 h fun y _ hs => ?_
  exact not_freeAt_of_same hx (hs.mono hle)

/-- The result is sound exactly when there is none to return, when the pool has a free block, or when the search finds none
outside it either. -/
theorem pickSound_iff (hagg : IsCover aggregate) (prefixLen : Nat) (used : List Ipv4Net) (pool : Ipv4Net) :
    PickSound aggregate prefixLen used pool ↔
      prefixLen ≤ pool.prefixLen ∨ 32 < prefixLen ∨ poolConflict prefixLen used pool = 0 ∨ HasFree used prefixLen pool ∨
        ¬HasFree used prefixLen (around pool (searchedLen prefixLen used pool)) := by
  by_cases hinv : prefixLen ≤ pool.prefixLen ∨ 32 < prefixLen
  · refine iff_of_true ?_ (by rcases hinv with h | h <;> simp [h])
    intro fuel n hn
    obtain ⟨e, he⟩ := pick_invalid aggregate used hinv fuel
    rw [he] at hn
    cases hn
  have h1 : pool.prefixLen < prefixLen := Nat.lt_of_not_le fun h => hinv (Or.inl h)
  have h2 : prefixLen ≤ 32 := Nat.le_of_not_lt fun h => hinv (Or.inr h)
  have hpool : HasFree used prefixLen pool ↔ ¬NoFree used prefixLen pool.addr pool.prefixLen :=
    hasFree_iff (Nat.le_of_lt h1) h2
  cases pick_outcome prefixLen used pool hagg h2 with
  | atOnce hx he =>
    have hin : InPool pool ⟨pool.addr, prefixLen, h2⟩ := (inPool_iff (Nat.le_of_lt h1)).2 (Same.refl _ _ _)
    refine iff_of_true ?_ (Or.inr (Or.inr (Or.inr (Or.inl ?_))))
    · intro fuel n hn
      have hok := pick_unique h1 h2 hn he
      cases hok
      exact ⟨rfl, hin, freeNet_iff.2 hx⟩
    · rw [hpool]
      intro hno
      refine hno (first 32 prefixLen pool.addr) (aligned_first _ _ _) ((same_first _ _ _).mono (Nat.le_of_lt h1)) ?_
      rwa [← freeAt_congr (same_first _ _ _)]
  | underflow hx h0 he =>
    refine iff_of_true ?_ (Or.inr (Or.inr (Or.inl h0)))
    intro fuel n hn
    have hbad := pick_unique h1 h2 hn he
    cases hbad
  | found n r hx h0 he hg hr hs hall =>
    have hin : InPool pool n ↔ Same 32 pool.prefixLen pool.addr n.addr := inPool_iff (by rw [hg.prefixLen]; exact Nat.le_of_lt h1)
    obtain ⟨fuel, hf⟩ := pick_of_endsIn h1 h2 he
    by_cases hfree : HasFree used prefixLen pool
    · -- the found block lies in the smallest searched block that has a free one, and the pool is one of them or larger
      refine iff_of_true ?_ (Or.inr (Or.inr (Or.inr (Or.inl hfree))))
      intro fuel' n' hn'
      have hok := pick_unique h1 h2 hn' he
      cases hok
      refine ⟨hg.prefixLen, hin.2 ?_, freeNet_iff.2 (by rw [hg.prefixLen]; exact hg.free)⟩
      have hlt := lt_poolConflict_of_hasFree h1 h2 hx hfree
      refine hs.mono (Nat.le_of_not_lt fun hrp => hpool.1 hfree (hall _ hrp hlt))
    · refine iff_of_false ?_ ?_
      · intro hsound
        refine hfree (hpool.2 fun hno => hno n.addr hg.aligned ?_ hg.free)
        exact hin.1 (hsound fuel n hf).2.1
      · have hsearched := (hasFree_searched_iff h2 h0).2 (not_noFree_of_good hg hr hs)
        rintro (h | h | h | h | h)
        · exact hinv (Or.inl h)
        · exact hinv (Or.inr h)
        · exact h0 h
        · exact hfree h
        · exact h hsearched
  | exhausted hx h0 hhit he hno =>
    refine iff_of_true ?_ (Or.inr (Or.inr (Or.inr (Or.inr fun h => (hasFree_searched_iff h2 h0).1 h hno))))
    intro fuel n hn
    have hbad := pick_unique h1 h2 hn he
    cases hbad
  | endless hx h0 hmiss hd hno =>
    refine iff_of_true ?_ (Or.inr (Or.inr (Or.inr (Or.inr fun h => (hasFree_searched_iff h2 h0).1 h hno))))
    intro fuel n hn
    rw [pick_valid h1 h2, hd fuel] at hn
    cases hn

/-- With `172.27.1.0/24` used, the default pool has other blocks of that size, so whatever is returned lies in it. -/
theorem pickSound_defaultPool : PickSound minimalCover 24 [⟨ipv4 172 27 1 0, 24, by decide⟩] defaultVmnetPool := by
  refine (pickSound_iff isCover_minimalCover 24 [⟨ipv4 172 27 1 0, 24, by decide⟩] defaultVmnetPool).2
    (Or.inr (Or.inr (Or.inr (Or.inl ⟨⟨ipv4 172 16 0 0, 24, by decide⟩, ⟨rfl, rfl⟩, ?_, ?_⟩))))
  · exact (inPool_iff (by decide)).2 (by decide)
  · rw [freeNet_iff]
    intro m hm
    rw [List.mem_singleton.1 hm]
    decide

/-- With the whole default pool used, the picker returns `172.0.0.0/16`, outside the pool. -/
theorem pickSound_false : ¬ ∀ aggregate : List Ipv4Net → List Ipv4Net, IsCover aggregate →
    ∀ prefixLen used pool, PickSound aggregate prefixLen used pool := by
  intro hall
  have hrun : pickAvailableNetworkInPool minimalCover 16 [⟨ipv4 172 16 0 0, 12, by decide⟩] defaultVmnetPool 10 =
      some (.ok ⟨ipv4 172 0 0 0, 16, by decide⟩) := by decide
  have hin := (hall minimalCover isCover_minimalCover 16 _ defaultVmnetPool 10 _ hrun).2.1
  exact absurd ((inPool_iff (by decide)).1 hin) (by decide)

/-! ## What the error means -/

/-- What is asked of an error: every aligned block of the pool overlaps a used network. -/
def PickComplete (aggregate : List Ipv4Net → List Ipv4Net) (prefixLen : Nat) (used : List Ipv4Net) (pool : Ipv4Net) : Prop :=
  ∀ fuel e, pickAvailableNetworkInPool aggregate prefixLen used pool fuel = some (.err e) →
    ∀ b, AlignedBlock prefixLen b → InPool pool b → ∃ m ∈ used, ¬DisjointNets b m

theorem forall_overlap_iff : (∀ b, AlignedBlock prefixLen b → InPool pool b → ∃ m ∈ used, ¬DisjointNets b m) ↔
    ¬HasFree used prefixLen pool := by
  simp only [HasFree, FreeNet, not_exists, not_and, Classical.not_forall, exists_prop]

/-- For a prefix length that the pool allows, the error means a full pool except when the search comes back to the pool's
address with no free block in the largest block it looks at while the pool is larger and has one. -/
theorem pickComplete_iff (hagg : IsCover aggregate) (prefixLen : Nat) (used : List Ipv4Net) (pool : Ipv4Net)
    (h1 : pool.prefixLen < prefixLen) (h2 : prefixLen ≤ 32) :
    PickComplete aggregate prefixLen used pool ↔
      ¬(¬FreeAt used prefixLen pool.addr ∧ poolConflict prefixLen used pool ≠ 0 ∧ AtConflictStart prefixLen used pool ∧
        ¬HasFree used prefixLen (around pool (searchedLen prefixLen used pool)) ∧ HasFree used prefixLen pool) := by
  have hnever : ∀ {r}, (∀ e, r ≠ .err e) → EndsIn (pickStep aggregate prefixLen used ⟨pool.addr, prefixLen, h2⟩)
      (.outer (prefixLen - 1) ⟨pool.addr, prefixLen, h2⟩) r → PickComplete aggregate prefixLen used pool := by
    intro r hr he fuel e hf
    exact absurd (pick_unique h1 h2 hf he).symm (hr e)
  cases pick_outcome prefixLen used pool hagg h2 with
  | atOnce hx he => exact iff_of_true (hnever (by simp) he) fun h => h.1 hx
  | underflow hx h0 he => exact iff_of_true (hnever (by simp) he) fun h => h.2.1 h0
  | found n r hx h0 he hg hr hs hall =>
    refine iff_of_true (hnever (by simp) he) fun h => h.2.2.2.1 ?_
    exact (hasFree_searched_iff h2 h0).2 (not_noFree_of_good hg hr hs)
  | exhausted hx h0 hhit he hno =>
    obtain ⟨fuel, hf⟩ := pick_of_endsIn h1 h2 he
    have hsearched : ¬HasFree used prefixLen (around pool (searchedLen prefixLen used pool)) :=
      fun h => (hasFree_searched_iff h2 h0).1 h hno
    constructor
    · rintro hc ⟨-, -, -, -, hfree⟩
      exact forall_overlap_iff.1 (hc fuel _ hf) hfree
    · intro hn fuel' e _
      exact forall_overlap_iff.2 fun hfree => hn ⟨hx, h0, hhit, hsearched, hfree⟩
  | endless hx h0 hmiss hd hno =>
    refine iff_of_true ?_ fun h => hmiss h.2.2.1
    intro fuel e hf
    rw [pick_valid h1 h2, hd fuel] at hf
    cases hf

/-- In the default pool, whose twelve bits are as many as the search ever looks at, the error means what it should. -/
theorem pickComplete_defaultPool : PickComplete minimalCover 24 [⟨ipv4 172 27 1 0, 24, by decide⟩] defaultVmnetPool := by
  refine (pickComplete_iff isCover_minimalCover 24 [⟨ipv4 172 27 1 0, 24, by decide⟩] defaultVmnetPool
    (by decide) (by decide)).2 ?_
  rintro ⟨-, -, -, hno, hfree⟩
  exact hno hfree

/-- In the pool `10.0.0.0/8` with `10.0.0.0/13` and `10.8.0.0/13` used, the search ends at the block of twelve bits, although
`10.16.0.0/24` is free. -/
theorem pickComplete_false : ¬ ∀ aggregate : List Ipv4Net → List Ipv4Net, IsCover aggregate →
    ∀ prefixLen used pool, pool.prefixLen < prefixLen → prefixLen ≤ 32 → PickComplete aggregate prefixLen used pool := by
  intro hall
  have hrun : pickAvailableNetworkInPool minimalCover 24
      [⟨ipv4 10 0 0 0, 13, by decide⟩, ⟨ipv4 10 8 0 0, 13, by decide⟩] ⟨ipv4 10 0 0 0, 8, by decide⟩ 10 =
      some (.err .exhausted) := by decide
  obtain ⟨m, hm, ho⟩ := hall minimalCover isCover_minimalCover 24 _ ⟨ipv4 10 0 0 0, 8, by decide⟩ (by decide) (by decide) 10 _
    hrun ⟨ipv4 10 16 0 0, 24, by decide⟩ ⟨rfl, rfl⟩ ((inPool_iff (by decide)).2 (by decide))
  refine ho (disjointNets_iff.2 ?_)
  simp only [List.mem_cons, List.not_mem_nil, or_false] at hm
  rcases hm with rfl | rfl <;> decide

end

end Anylinuxfs
