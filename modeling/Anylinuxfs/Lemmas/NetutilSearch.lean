import Anylinuxfs.Lemmas.Netutil

/-!
# The loops of the picker

What the two loops of the picker compute, in terms of blocks: `outer_round` is one round of the outer loop with the rounds of the
inner one in it. From it, how a whole search ends: `search_hit` when the pool's address is the first of its conflict, so that
the search can come back to it, and `search_miss` when it is not.
-/

namespace Anylinuxfs

open Cidr Loop

/-! ## Networks and blocks -/

section

variable {used : List Ipv4Net}

theorem disjointNets_iff {n m : Ipv4Net} : DisjointNets n m ↔ ¬Same 32 (min n.prefixLen m.prefixLen) n.addr m.addr := by
  rw [← overlap_iff]
  simp only [DisjointNets, Net.mem_iff, not_exists]

theorem freeNet_iff {n : Ipv4Net} : FreeNet used n ↔ FreeAt used n.prefixLen n.addr := by
  simp only [FreeNet, FreeAt, disjointNets_iff]

/-- The loop ends exactly at a candidate that is free. -/
theorem conflicting_eq_nil_iff {candidate : Ipv4Net} :
    conflicting used candidate = [] ↔ FreeAt used candidate.prefixLen candidate.addr := by
  simp only [conflicting, List.filter_eq_nil_iff, Bool.or_eq_true, Net.overlap_iff_contains, FreeAt]

/-- The candidate and its conflicts make up one block. -/
theorem covered_conflicting {candidate : Ipv4Net} {y : Nat} : Covered (conflicting used candidate ++ [candidate]) y ↔
    Same 32 (coverLen used candidate.prefixLen candidate.addr) candidate.addr y := by
  rw [covered_append]
  constructor
  · rintro (⟨m, hm, hy⟩ | ⟨m, hm, hy⟩)
    · obtain ⟨hused, ho⟩ := List.mem_filter.1 hm
      rw [Bool.or_eq_true] at ho
      rw [Net.mem_iff] at hy
      rcases ho with hc | hc
      · obtain ⟨hle, hs⟩ := Net.contains_iff.1 hc
        exact (hs.trans (hy.mono hle)).mono (coverLen_le _ _ _)
      · obtain ⟨hle, hs⟩ := Net.contains_iff.1 hc
        exact (hs.symm.trans hy).mono (coverLen_le_of_mem hused hle hs)
    · rw [List.mem_singleton.1 hm, Net.mem_iff] at hy
      exact hy.mono (coverLen_le _ _ _)
  · intro hs
    rcases coverLen_cases used candidate.prefixLen candidate.addr with h | ⟨m, hm, heq, hle, hmc⟩
    · rw [h] at hs
      exact Or.inr ⟨candidate, List.mem_singleton.2 rfl, Net.mem_iff.2 hs⟩
    · refine Or.inl ⟨m, List.mem_filter.2 ⟨hm, ?_⟩, Net.mem_iff.2 ?_⟩
      · rw [Bool.or_eq_true]
        exact Or.inr (Net.contains_iff.2 ⟨hle, hmc⟩)
      · rw [heq] at hmc ⊢
        exact hmc.trans hs

variable {aggregate : List Ipv4Net → List Ipv4Net}

theorem aggregate_conflicting (hagg : IsCover aggregate) (used : List Ipv4Net) (candidate : Ipv4Net) :
    ∃ n, aggregate (conflicting used candidate ++ [candidate]) = [n] ∧
      n.prefixLen = coverLen used candidate.prefixLen candidate.addr ∧
      (n.network : Nat) = first 32 (coverLen used candidate.prefixLen candidate.addr) candidate.addr := by
  have hle : coverLen used candidate.prefixLen candidate.addr ≤ 32 := Nat.le_trans (coverLen_le _ _ _) candidate.prefixLen_le
  obtain ⟨n, hn, hp, hnet⟩ := hagg.of_block (l := conflicting used candidate ++ [candidate])
    (b := ⟨candidate.addr, coverLen used candidate.prefixLen candidate.addr, hle⟩) fun y => by
      rw [covered_conflicting, Net.mem_iff]
  exact ⟨n, hn, hp, congrArg Fin.val hnet⟩

/-- The first element behind a run of elements is the first that does not belong to it. -/
theorem head?_dropWhile {α : Type} (f : α → Bool) (l : List α) : (l.dropWhile f).head? = l.find? (fun a => !f a) := by
  induction l with
  | nil => rfl
  | cons a l ih =>
    rw [List.dropWhile_cons, List.find?_cons]
    cases f a with
    | true => simpa using ih
    | false => rfl

/-- Of siblings in order, the search takes the one behind that of the candidate, or the first when there is none. -/
theorem nextSibling_range {candidate : Ipv4Net} {f : Nat → Ipv4Net} {n j : Nat} (hj : j < n) (hj0 : j + 1 = n → 0 < j)
    (hle : ∀ i < n, (f i).le candidate = true ↔ i ≤ j) (hlt : 0 < j → (f 0).lt candidate = true) :
    nextSibling ((List.range n).map f) candidate = some (f (if j + 1 < n then j + 1 else 0)) := by
  unfold nextSibling
  rw [head?_dropWhile, List.find?_map]
  by_cases h : j + 1 < n
  · have hfind : (List.range n).find? ((fun a => !a.le candidate) ∘ f) = some (j + 1) := by
      rw [List.find?_range_eq_some]
      refine ⟨?_, List.mem_range.2 h, ?_⟩
      · simp [eq_false_of_ne_true (mt (hle (j + 1) h).1 (by omega))]
      · intro i hi
        simp [(hle i (by omega)).2 (by omega)]
    rw [hfind, if_pos h]
    rfl
  · have hfind : (List.range n).find? ((fun a => !a.le candidate) ∘ f) = none := by
      rw [List.find?_range_eq_none]
      intro i hi
      simp [(hle i hi).2 (by omega)]
    have hhead : ((List.range n).map f).head? = some (f 0) := by
      obtain ⟨k, rfl⟩ : ∃ k, n = k + 1 := ⟨n - 1, by omega⟩
      rw [List.range_succ_eq_map]
      rfl
    rw [hfind, if_neg h, List.head?_takeWhile, hhead]
    simp [Option.filter, hlt (hj0 (by omega))]

/-- The first sibling that the search takes is the next block. -/
theorem nextSibling_subnets {supernet candidate : Ipv4Net} {a : Nat} (hqa : supernet.prefixLen < a)
    (ha : a ≤ candidate.prefixLen) (hs : Same 32 supernet.prefixLen supernet.addr candidate.addr) :
    ∃ siblings n, supernet.subnets a = some siblings ∧ nextSibling siblings candidate = some n ∧ n.prefixLen = a ∧
      (n.addr : Nat) = nextAddr supernet.prefixLen a candidate.addr := by
  obtain ⟨q, hq⟩ : ∃ q, q = supernet.prefixLen := ⟨_, rfl⟩
  have ha32 : a ≤ 32 := Nat.le_trans ha candidate.prefixLen_le
  have hnet : (supernet.network : Nat) = first 32 q candidate.addr := by
    rw [Net.network_val, ← hq]
    exact (hq ▸ hs).first_eq
  rw [← hq] at hqa hs ⊢
  -- the index of the candidate's block among the siblings
  have hsize : size 32 q = 2 ^ (a - q) * size 32 a := by
    unfold size
    rw [← Nat.pow_add]
    congr 1
    omega
  have hpos := size_pos 32 a
  obtain ⟨j, hj⟩ : ∃ j, first 32 a candidate.addr = first 32 q candidate.addr + j * size 32 a := by
    have hle := first_mono (w := 32) (x := candidate.addr) (Nat.le_of_lt hqa)
    have hd1 : size 32 a ∣ first 32 a candidate.addr := aligned_iff_dvd.1 (aligned_first _ _ _)
    have hd2 : size 32 a ∣ first 32 q candidate.addr :=
      Nat.dvd_trans (size_dvd (Nat.le_of_lt hqa)) (aligned_iff_dvd.1 (aligned_first _ _ _))
    obtain ⟨k, hk⟩ := Nat.dvd_sub hd1 hd2
    exact ⟨k, by rw [Nat.mul_comm k]; omega⟩
  have hlast := lt_first_add_size 32 a candidate.addr
  have hfirst := first_le 32 a candidate.addr
  have hjn : j < 2 ^ (a - q) := by
    have hend := end_mono (w := 32) (x := candidate.addr) (Nat.le_of_lt hqa)
    refine Nat.lt_of_mul_lt_mul_right (a := size 32 a) ?_
    omega
  have hn2 : 2 ≤ 2 ^ (a - q) := by
    obtain ⟨d, hd⟩ : ∃ d, a - q = d + 1 := ⟨a - q - 1, by omega⟩
    have := Nat.two_pow_pos d
    rw [hd, Nat.pow_succ]
    omega
  -- the starts of the siblings are addresses, so nothing wraps around
  have hstart : ∀ i < 2 ^ (a - q), (first 32 q candidate.addr + i * size 32 a) % 2 ^ 32 =
      first 32 q candidate.addr + i * size 32 a := by
    intro i hi
    have hnl := supernet.last_lt
    have hmul : (i + 1) * size 32 a ≤ 2 ^ (a - q) * size 32 a := Nat.mul_le_mul_right _ hi
    rw [last, ← hq, hs.first_eq] at hnl
    rw [Nat.add_mul] at hmul
    exact Nat.mod_eq_of_lt (by omega)
  have hmono : ∀ i, first 32 q candidate.addr + i * size 32 a ≤ candidate.addr ↔ i ≤ j := by
    intro i
    constructor
    · intro h
      refine Nat.le_of_not_lt fun hlt => ?_
      have : (j + 1) * size 32 a ≤ i * size 32 a := Nat.mul_le_mul_right _ hlt
      rw [Nat.add_mul] at this
      omega
    · intro h
      have : i * size 32 a ≤ j * size 32 a := Nat.mul_le_mul_right _ h
      omega
  refine ⟨_, _, dif_pos ⟨by omega, ha32⟩, nextSibling_range (j := j) (hq ▸ hjn) ?_ ?_ ?_, rfl, ?_⟩
  · rw [← hq]
    omega
  · intro i hi
    rw [← hq] at hi
    rw [Net.le_iff, ← hmono i]
    simp only [Fin.val_ofNat, hnet, hstart i hi]
    omega
  · intro h0
    rw [Net.lt_iff]
    have hz := hstart 0 (by omega)
    have : size 32 a ≤ j * size 32 a := Nat.le_mul_of_pos_left _ h0
    simp only [Fin.val_ofNat, hnet, hz]
    omega
  · simp only [← hq, Fin.val_ofNat, hnet, nextAddr]
    have hsucc : (j + 1) * size 32 a = j * size 32 a + size 32 a := by rw [Nat.add_mul, Nat.one_mul]
    by_cases h : j + 1 < 2 ^ (a - q)
    · have hlt : (j + 1 + 1) * size 32 a ≤ 2 ^ (a - q) * size 32 a := Nat.mul_le_mul_right _ h
      rw [Nat.add_mul (j + 1)] at hlt
      rw [if_pos h, hstart _ h, if_pos (by omega)]
      omega
    · have heq : j + 1 = 2 ^ (a - q) := by omega
      have hall : (j + 1) * size 32 a = size 32 q := by rw [heq, hsize]
      rw [if_neg h, hstart 0 (by omega), if_neg (by omega)]
      omega

/-! ## One round -/

theorem outerStep_free {q : Nat} {candidate : Ipv4Net} (hf : FreeAt used candidate.prefixLen candidate.addr) :
    outerStep aggregate used q candidate = .inr (.ok candidate) := by
  rw [outerStep, if_pos (conflicting_eq_nil_iff.2 hf)]

/-- A used network that contains every address makes the prefix length of the supernet underflow. -/
theorem outerStep_underflow (hagg : IsCover aggregate) {q : Nat} {candidate : Ipv4Net}
    (hf : ¬FreeAt used candidate.prefixLen candidate.addr) (h0 : coverLen used candidate.prefixLen candidate.addr = 0) :
    outerStep aggregate used q candidate = .inr .panic := by
  obtain ⟨n, hn, hp, -⟩ := aggregate_conflicting hagg used candidate
  rw [outerStep, if_neg (mt conflicting_eq_nil_iff.1 hf), hn]
  simp only [List.head?_cons, hp, h0, if_true]

/-- A conflict leads to the inner loop, with the supernet in which the search goes on. -/
theorem outerStep_conflict (hagg : IsCover aggregate) {q : Nat} {candidate : Ipv4Net}
    (hf : ¬FreeAt used candidate.prefixLen candidate.addr) (h0 : coverLen used candidate.prefixLen candidate.addr ≠ 0) :
    ∃ aggregated supernet,
      outerStep aggregate used q candidate = .inl (.inner supernet.prefixLen candidate aggregated supernet) ∧
      aggregated.prefixLen = coverLen used candidate.prefixLen candidate.addr ∧
      supernet.prefixLen = min q (coverLen used candidate.prefixLen candidate.addr - 1) ∧
      Same 32 supernet.prefixLen supernet.addr candidate.addr := by
  obtain ⟨n, hn, hp, hnet⟩ := aggregate_conflicting hagg used candidate
  have hle := coverLen_le used candidate.prefixLen candidate.addr
  have hle32 := candidate.prefixLen_le
  have hq : min q (n.prefixLen - 1) ≤ 32 := by omega
  refine ⟨n, ⟨n.network, min q (n.prefixLen - 1), hq⟩, ?_, hp, congrArg (fun a => min q (a - 1)) hp, ?_⟩
  · rw [outerStep, if_neg (mt conflicting_eq_nil_iff.1 hf), hn]
    simp only [List.head?_cons, hp, if_neg h0, Net.new]
    rw [dif_pos (by omega)]
  · simp only [hnet, hp]
    exact ((same_first _ _ _).mono (by omega)).symm

variable {p : Nat} {base candidate aggregated supernet : Ipv4Net}

/-- The candidate that a round of the inner loop comes to. -/
theorem innerStep_eq (base : Ipv4Net) (hp : p ≤ 32) (hqa : supernet.prefixLen < aggregated.prefixLen) (hap : aggregated.prefixLen ≤ p)
    (hc : candidate.prefixLen = p) (hs : Same 32 supernet.prefixLen supernet.addr candidate.addr) (q : Nat) :
    ∃ next : Ipv4Net, next.prefixLen = p ∧
      (next.addr : Nat) = nextAddr supernet.prefixLen aggregated.prefixLen candidate.addr ∧
      innerStep p base q candidate aggregated supernet = tryCandidate base q aggregated supernet next := by
  obtain ⟨siblings, n, hsub, hnext, hnp, hna⟩ := nextSibling_subnets hqa (hc ▸ hap) hs
  have hnet : (n.network : Nat) = n.addr := by
    rw [Net.network_val, hnp, hna]
    exact nextAddr_aligned hqa
  refine ⟨⟨n.network, p, hp⟩, rfl, hnet.trans hna, ?_⟩
  have hnew : Net.new n.network p = some ⟨n.network, p, hp⟩ := dif_pos hp
  simp only [innerStep, hsub, hnext, hnew]

/-- The inner loop goes back to the outer one when the candidate is not the one the search began with. -/
theorem innerStep_next (hp : p ≤ 32) (hqa : supernet.prefixLen < aggregated.prefixLen) (hap : aggregated.prefixLen ≤ p)
    (hc : candidate.prefixLen = p) (hs : Same 32 supernet.prefixLen supernet.addr candidate.addr) (q : Nat)
    (hne : nextAddr supernet.prefixLen aggregated.prefixLen candidate.addr ≠ base.addr) :
    ∃ next : Ipv4Net, next.prefixLen = p ∧
      (next.addr : Nat) = nextAddr supernet.prefixLen aggregated.prefixLen candidate.addr ∧
      innerStep p base q candidate aggregated supernet = .inl (.outer q next) := by
  obtain ⟨next, hnp, hna, hstep⟩ := innerStep_eq base hp hqa hap hc hs q
  refine ⟨next, hnp, hna, ?_⟩
  rw [hstep, tryCandidate, if_neg]
  rintro rfl
  exact hne hna.symm

/-- Back at the candidate the search began with, a supernet of at most twelve bits ends it. -/
theorem innerStep_exhausted (hp : p ≤ 32) (hqa : supernet.prefixLen < aggregated.prefixLen)
    (hap : aggregated.prefixLen ≤ p) (hc : candidate.prefixLen = p) (hb : base.prefixLen = p)
    (hs : Same 32 supernet.prefixLen supernet.addr candidate.addr) (q : Nat)
    (heq : nextAddr supernet.prefixLen aggregated.prefixLen candidate.addr = base.addr) (h12 : supernet.prefixLen ≤ 12) :
    innerStep p base q candidate aggregated supernet = .inr (.err .exhausted) := by
  obtain ⟨next, hnp, hna, hstep⟩ := innerStep_eq base hp hqa hap hc hs q
  have hnb : next = base := Net.ext_iff.2 ⟨Fin.ext (hna.trans heq), hnp.trans hb.symm⟩
  rw [hstep, tryCandidate, if_pos hnb, if_neg (by omega)]

/-- Back at the candidate the search began with, a longer supernet is broadened by one bit. -/
theorem innerStep_broaden (hp : p ≤ 32) (hqa : supernet.prefixLen < aggregated.prefixLen)
    (hap : aggregated.prefixLen ≤ p) (hc : candidate.prefixLen = p) (hb : base.prefixLen = p)
    (hs : Same 32 supernet.prefixLen supernet.addr candidate.addr) (q : Nat)
    (heq : nextAddr supernet.prefixLen aggregated.prefixLen candidate.addr = base.addr) (h12 : 12 < supernet.prefixLen) :
    ∃ broader : Ipv4Net, innerStep p base q candidate aggregated supernet =
        .inl (.inner broader.prefixLen base aggregated broader) ∧
      broader.prefixLen = supernet.prefixLen - 1 ∧ Same 32 broader.prefixLen broader.addr base.addr := by
  obtain ⟨next, hnp, hna, hstep⟩ := innerStep_eq base hp hqa hap hc hs q
  have hnb : next = base := Net.ext_iff.2 ⟨Fin.ext (hna.trans heq), hnp.trans hb.symm⟩
  have hle := supernet.prefixLen_le
  refine ⟨Net.trunc ⟨supernet.addr, supernet.prefixLen - 1, by omega⟩, ?_, rfl, ?_⟩
  · rw [hstep, tryCandidate, if_pos hnb, if_pos h12, hnb, Net.supernet, if_neg (by omega)]
  · have hsb : Same 32 supernet.prefixLen supernet.addr base.addr := by
      rw [← heq]
      exact hs.trans (nextAddr_same hqa)
    exact ((same_first _ _ _).symm).trans (hsb.mono (Nat.sub_le _ _))

/-- One round of the search, from a candidate in conflict to the next candidate. -/
theorem outer_round (hagg : IsCover aggregate) (hp : p ≤ 32) (hc : candidate.prefixLen = p) {q : Nat}
    (hf : ¬FreeAt used p candidate.addr) (h0 : coverLen used p candidate.addr ≠ 0)
    (hne : nextAddr (min q (coverLen used p candidate.addr - 1)) (coverLen used p candidate.addr) candidate.addr ≠ base.addr) :
    ∃ (s₁ : PickState) (next : Ipv4Net), pickStep aggregate p used base (.outer q candidate) = .inl s₁ ∧
      Leads (pickStep aggregate p used base) s₁ (.outer (min q (coverLen used p candidate.addr - 1)) next) ∧
      next.prefixLen = p ∧ (next.addr : Nat) =
        nextAddr (min q (coverLen used p candidate.addr - 1)) (coverLen used p candidate.addr) candidate.addr := by
  subst hc
  obtain ⟨aggregated, supernet, hstep, ha, hq, hs⟩ := outerStep_conflict (q := q) hagg hf h0
  have hle := coverLen_le used candidate.prefixLen candidate.addr
  rw [← hq, ← ha] at hne ⊢
  obtain ⟨next, hnp, hna, hinner⟩ :=
    innerStep_next hp (by omega) (by omega) rfl hs supernet.prefixLen hne
  exact ⟨_, next, hstep, Leads.tail Leads.refl hinner, hnp, hna⟩

/-- A round that comes back to the candidate the search began with, in a supernet of at most twelve bits. -/
theorem outer_exhausted (hagg : IsCover aggregate) (hp : p ≤ 32) (hc : candidate.prefixLen = p) (hb : base.prefixLen = p)
    {q : Nat} (hf : ¬FreeAt used p candidate.addr) (hq : q < coverLen used p candidate.addr) (h12 : q ≤ 12)
    (heq : nextAddr q (coverLen used p candidate.addr) candidate.addr = base.addr) :
    EndsIn (pickStep aggregate p used base) (.outer q candidate) (.err .exhausted) := by
  subst hc
  obtain ⟨aggregated, supernet, hstep, ha, hsq, hs⟩ := outerStep_conflict (q := q) hagg hf (by omega)
  have hle := coverLen_le used candidate.prefixLen candidate.addr
  have hsq' : supernet.prefixLen = q := by omega
  rw [← ha, ← hsq'] at heq
  exact EndsIn.of_inl hstep (EndsIn.of_inr
    (innerStep_exhausted hp (by omega) (by omega) rfl hb hs supernet.prefixLen heq (by omega)))

/-- A round that comes back to the candidate the search began with, in a supernet of more than twelve bits: the search goes on
behind that candidate, in a supernet of one bit less. -/
theorem outer_broaden (hagg : IsCover aggregate) (hp : p ≤ 32) (hc : candidate.prefixLen = p) (hb : base.prefixLen = p)
    {q : Nat} (hf : ¬FreeAt used p candidate.addr) (hq : q < coverLen used p candidate.addr) (h12 : 12 < q)
    (heq : nextAddr q (coverLen used p candidate.addr) candidate.addr = base.addr) :
    ∃ next : Ipv4Net, Leads (pickStep aggregate p used base) (.outer q candidate) (.outer (q - 1) next) ∧
      next.prefixLen = p ∧ (next.addr : Nat) = nextAddr (q - 1) (coverLen used p candidate.addr) base.addr := by
  subst hc
  obtain ⟨aggregated, supernet, hstep, ha, hsq, hs⟩ := outerStep_conflict (q := q) hagg hf (by omega)
  have hle := coverLen_le used candidate.prefixLen candidate.addr
  have hsq' : supernet.prefixLen = q := by omega
  rw [← ha, ← hsq'] at heq
  obtain ⟨broader, hinner, hbq, hbs⟩ :=
    innerStep_broaden hp (by omega) (by omega) rfl hb hs supernet.prefixLen heq (by omega)
  have hne : nextAddr broader.prefixLen aggregated.prefixLen base.addr ≠ base.addr := by
    intro he
    refine nextAddr_not_same (q := broader.prefixLen) (a := aggregated.prefixLen) (c := base.addr) (by omega) (by omega) ?_
    rw [he]
    exact Same.refl _ _ _
  obtain ⟨next, hnp, hna, hagain⟩ :=
    innerStep_next hp (by omega) (by omega) hb hbs broader.prefixLen hne
  have hq1 : broader.prefixLen = q - 1 := by omega
  rw [← ha, ← hq1]
  exact ⟨next, Leads.tail (Leads.tail (Leads.tail Leads.refl hstep) hinner) hagain, hnp, hna⟩

/-! ## A whole search -/

/-- The candidate is a network that the picker may return: of the prefix length, aligned, free. -/
structure Good (used : List Ipv4Net) (p : Nat) (n : Ipv4Net) : Prop where
  prefixLen : n.prefixLen = p
  aligned : Aligned 32 p n.addr
  free : FreeAt used p n.addr

/-- A sweep finds a free block of the searched one, or comes round when there is none. -/
theorem sweep_leads (hagg : IsCover aggregate) (hp : p ≤ 32) (hx : ¬FreeAt used p base.addr) {q : Nat}
    (hc : candidate.prefixLen = p) (hsweep : Sweep used p base.addr q candidate.addr) :
    (∃ n, EndsIn (pickStep aggregate p used base) (.outer q candidate) (.ok n) ∧ Good used p n ∧ Same 32 q base.addr n.addr) ∨
    (NoFree used p base.addr q ∧ ∃ last : Ipv4Net,
      Leads (pickStep aggregate p used base) (.outer q candidate) (.outer q last) ∧ last.prefixLen = p ∧
      Same 32 q base.addr last.addr ∧ ¬FreeAt used p last.addr ∧
      nextAddr q (coverLen used p last.addr) last.addr = conflictStart used p base.addr) := by
  induction hm : sweepLeft used p base.addr q candidate.addr using Nat.strongRecOn generalizing candidate with
  | ind m ih =>
    by_cases hf : FreeAt used p candidate.addr
    · refine Or.inl ⟨candidate, EndsIn.of_inr (outerStep_free (hc ▸ hf)), ⟨hc, hsweep.aligned, hf⟩, hsweep.inside⟩
    · rcases sweep_round hp hsweep hx hf with ⟨heq, hno⟩ | ⟨hnext, hlt⟩
      · exact Or.inr ⟨hno, candidate, Leads.refl, hc, hsweep.inside, hf, heq⟩
      · have hqa := coverLen_gt hsweep.small hsweep.inside
        have hmin : min q (coverLen used p candidate.addr - 1) = q := by omega
        have hne : nextAddr (min q (coverLen used p candidate.addr - 1)) (coverLen used p candidate.addr) candidate.addr ≠
            base.addr := by
          rw [hmin]
          intro he
          refine hnext.going (nextAddr_outside hp hsweep.small hsweep.inside ?_)
          rw [he]
          exact Same.refl _ _ _
        obtain ⟨s₁, next, hstep, hleads, hnp, hna⟩ :=
          outer_round hagg hp hc hf (by omega) hne
        rw [hmin] at hleads hna
        rw [← hna] at hnext hlt
        have hl : Leads (pickStep aggregate p used base) (.outer q candidate) (.outer q next) :=
          (Leads.tail Leads.refl hstep).trans hleads
        rcases ih _ (hm ▸ hlt) hnp hnext rfl with ⟨n, he, hg⟩ | ⟨hno, last, hl', hrest⟩
        · exact Or.inl ⟨n, hl.endsIn he, hg⟩
        · exact Or.inr ⟨hno, last, hl.trans hl', hrest⟩

/-- The search when the pool's address is the first of its conflict: every time it comes round the searched block is doubled, up
to a block of twelve bits, and it ends with a free block of the first of these that has one, or with the error. -/
theorem search_hit (base : Ipv4Net) (hagg : IsCover aggregate) (hp : p ≤ 32) (hb : base.prefixLen = p) (hx : ¬FreeAt used p base.addr)
    (hhit : conflictStart used p base.addr = base.addr) {q : Nat} (hc : candidate.prefixLen = p)
    (hsweep : Sweep used p base.addr q candidate.addr) :
    (∃ n r, EndsIn (pickStep aggregate p used base) (.outer q candidate) (.ok n) ∧ Good used p n ∧
      min q 12 ≤ r ∧ r ≤ q ∧ Same 32 r base.addr n.addr ∧ ∀ r', r < r' → r' ≤ q → NoFree used p base.addr r') ∨
    (EndsIn (pickStep aggregate p used base) (.outer q candidate) (.err .exhausted) ∧ NoFree used p base.addr (min q 12)) := by
  induction q generalizing candidate with
  | zero =>
    rcases sweep_leads hagg hp hx hc hsweep with ⟨n, he, hg, hs⟩ | ⟨hno, last, hl, hlp, hls, hlf, heq⟩
    · exact Or.inl ⟨n, 0, he, hg, by omega, by omega, hs, fun r' h1 h2 => by omega⟩
    · have hqa := coverLen_gt hsweep.small hls
      exact Or.inr ⟨hl.endsIn (outer_exhausted hagg hp hlp hb hlf hqa (by omega) (heq.trans hhit)), hno⟩
  | succ q ih =>
    rcases sweep_leads hagg hp hx hc hsweep with ⟨n, he, hg, hs⟩ | ⟨hno, last, hl, hlp, hls, hlf, heq⟩
    · exact Or.inl ⟨n, q + 1, he, hg, by omega, by omega, hs, fun r' h1 h2 => by omega⟩
    · have hqa := coverLen_gt hsweep.small hls
      by_cases h12 : q + 1 ≤ 12
      · rw [Nat.min_eq_left h12]
        exact Or.inr ⟨hl.endsIn (outer_exhausted hagg hp hlp hb hlf hqa h12 (heq.trans hhit)), hno⟩
      · -- the block behind which the broader sweep begins lies in the block that was just searched
        obtain ⟨next, hl', hnp, hna⟩ := outer_broaden hagg hp hlp hb hlf hqa (by omega) (heq.trans hhit)
        have hsx : Same 32 (q + 1) base.addr (conflictStart used p base.addr) :=
          (same_first _ _ _).mono (Nat.le_of_lt hsweep.small)
        have hstart : Sweep used p base.addr q (nextAddr q (coverLen used p last.addr) (conflictStart used p base.addr)) := by
          refine Sweep.start hp (Nat.lt_of_succ_lt hsweep.small) (by omega) (coverLen_le _ _ _) (hsx.mono (by omega)) ?_ ?_
          · rw [← heq]
            exact nextAddr_aligned hqa
          · intro y hy hs
            exact hno y hy (hsx.trans (hs.mono (Nat.le_of_lt hqa)))
        rw [hhit] at hstart
        have hnext : Sweep used p base.addr q next.addr := by
          rw [hna]
          exact hstart
        have hl'' := hl.trans hl'
        rcases ih hnp hnext with ⟨n, r, he, hg, h1, h2, hs, hall⟩ | ⟨he, hno'⟩
        · refine Or.inl ⟨n, r, hl''.endsIn he, hg, by omega, by omega, hs, ?_⟩
          intro r' hr1 hr2
          rcases Nat.lt_or_ge q r' with hlt | hge
          · have : r' = q + 1 := by omega
            rw [this]
            exact hno
          · exact hall r' hr1 hge
        · have hmin : min (q + 1) 12 = min q 12 := by omega
          rw [hmin]
          exact Or.inr ⟨hl''.endsIn he, hno'⟩

/-- The search when the pool's address is not the first of its conflict: it never comes back to the pool's address, so without a
free block in the searched one it goes round for ever. -/
theorem search_miss (base : Ipv4Net) (hagg : IsCover aggregate) (hp : p ≤ 32) (hx : ¬FreeAt used p base.addr)
    (hmiss : conflictStart used p base.addr ≠ base.addr) {q : Nat} (hc : candidate.prefixLen = p)
    (hsweep : Sweep used p base.addr q candidate.addr) :
    (∃ n, EndsIn (pickStep aggregate p used base) (.outer q candidate) (.ok n) ∧ Good used p n ∧ Same 32 q base.addr n.addr) ∨
    (NoFree used p base.addr q ∧ Diverges (pickStep aggregate p used base) (.outer q candidate)) := by
  rcases sweep_leads hagg hp hx hc hsweep with hfound | ⟨hno, last, hl, hlp, hls, -, -⟩
  · exact Or.inl hfound
  · refine Or.inr ⟨hno, hl.diverges (Diverges.of_invariant
      (fun s => ∃ c : Ipv4Net, s = .outer q c ∧ c.prefixLen = p ∧ Same 32 q base.addr c.addr) ?_ ⟨last, rfl, hlp, hls⟩)⟩
    rintro s ⟨c, rfl, hcp, hcs⟩
    have hqa := coverLen_gt hsweep.small hcs
    have hqp := Nat.le_trans (Nat.le_of_lt hqa) (coverLen_le _ _ _)
    have hf : ¬FreeAt used p c.addr := by
      rw [freeAt_congr (same_first 32 p c.addr)]
      exact hno _ (aligned_first _ _ _) (hcs.trans ((same_first 32 p c.addr).mono hqp))
    have hmin : min q (coverLen used p c.addr - 1) = q := by omega
    have hne : nextAddr (min q (coverLen used p c.addr - 1)) (coverLen used p c.addr) c.addr ≠ base.addr := by
      rw [hmin]
      intro he
      have ht := nextAddr_outside hp hsweep.small hcs (by rw [he]; exact Same.refl _ _ _)
      exact hmiss (ht.symm.trans he)
    obtain ⟨s₁, next, hstep, hleads, hnp, hna⟩ := outer_round hagg hp hcp hf (by omega) hne
    rw [hmin] at hleads hna
    exact ⟨s₁, _, hstep, hleads, next, rfl, hnp, by rw [hna]; exact hcs.trans (nextAddr_same hqa)⟩

/-- The first round of the search: it leaves the conflict of the pool's address for the other half of the block around it. -/
theorem search_start (base : Ipv4Net) (hagg : IsCover aggregate) (hp : p ≤ 32) (hb : base.prefixLen = p) (hx : ¬FreeAt used p base.addr)
    (h0 : coverLen used p base.addr ≠ 0) :
    ∃ next : Ipv4Net, Leads (pickStep aggregate p used base) (.outer (p - 1) base) (.outer (coverLen used p base.addr - 1) next) ∧
      next.prefixLen = p ∧ Sweep used p base.addr (coverLen used p base.addr - 1) next.addr := by
  have hle := coverLen_le used p base.addr
  have hmin : min (p - 1) (coverLen used p base.addr - 1) = coverLen used p base.addr - 1 := by omega
  have hq : coverLen used p base.addr - 1 < coverLen used p base.addr := by omega
  have hsx : Same 32 (coverLen used p base.addr) base.addr (conflictStart used p base.addr) := same_first _ _ _
  have hne : nextAddr (min (p - 1) (coverLen used p base.addr - 1)) (coverLen used p base.addr) base.addr ≠ base.addr := by
    rw [hmin]
    intro he
    refine nextAddr_not_same (c := base.addr) hq (by omega) ?_
    rw [he]
    exact Same.refl _ _ _
  obtain ⟨s₁, next, hstep, hleads, hnp, hna⟩ := outer_round hagg hp hb hx h0 hne
  rw [hmin] at hleads hna
  refine ⟨next, (Leads.tail Leads.refl hstep).trans hleads, hnp, ?_⟩
  rw [hna, nextAddr_congr (Nat.le_of_lt hq) hsx]
  exact Sweep.start hp hq hq hle (hsx.mono (Nat.le_of_lt hq)) (aligned_first _ _ _)
    fun y _ hs => not_freeAt_of_same hx (hsx.trans hs)

end

end Anylinuxfs
