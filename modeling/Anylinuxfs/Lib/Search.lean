import Mathlib.Data.Finset.Card
import Mathlib.Order.Interval.Finset.Nat
import Anylinuxfs.Lib.Loop

/-!
# Searching with a counter

A loop that tries the numbers from zero on until one of them gives a result, and gives up at a limit; and when there is something
to find: of more candidates than there are names that are taken, one is free.
-/

namespace Loop

section

variable {β : Type} {found : Nat → Option β} {limit n : Nat} {exhausted b : β}

/-- One turn of the search. -/
def search (found : Nat → Option β) (limit : Nat) (exhausted : β) (n : Nat) : Nat ⊕ β :=
  match found n with
  | some b => .inr b
  | none => if n + 1 < limit then .inl (n + 1) else .inr exhausted

theorem leads_search (h : ∀ m < n, found m = none) (hn : n < limit) : Leads (search found limit exhausted) 0 n := by
  induction n with
  | zero => exact .refl
  | succ n ih =>
    have hnone : found n = none := h n (Nat.lt_succ_self n)
    refine .tail (ih (fun m hm => h m (Nat.lt_succ_of_lt hm)) (by omega)) ?_
    rw [search, hnone]
    exact if_pos hn

theorem endsIn_search_found (hn : n < limit) (hb : found n = some b) (h : ∀ m < n, found m = none) :
    EndsIn (search found limit exhausted) 0 b :=
  (leads_search h hn).endsIn (.of_inr (by rw [search, hb]))

theorem endsIn_search_exhausted (hlimit : 0 < limit) (h : ∀ n < limit, found n = none) :
    EndsIn (search found limit exhausted) 0 exhausted := by
  refine (leads_search (n := limit - 1) (fun m hm => h m (by omega)) (by omega)).endsIn (.of_inr ?_)
  rw [search, h (limit - 1) (by omega)]
  exact if_neg (by omega)

/-- What the search ends in: the result of the first number that has one, if there is one below the limit. -/
theorem endsIn_search_iff (hlimit : 0 < limit) : EndsIn (search found limit exhausted) 0 b ↔
    (∃ n < limit, found n = some b ∧ ∀ m < n, found m = none) ∨ (∀ n < limit, found n = none) ∧ b = exhausted := by
  constructor
  · intro hb
    by_cases hall : ∀ n < limit, found n = none
    · exact .inr ⟨hall, hb.unique (endsIn_search_exhausted hlimit hall)⟩
    · have hex : ∃ n, found n ≠ none := by
        by_contra hno
        exact hall fun n _ => by_contra fun hne => hno ⟨n, hne⟩
      obtain ⟨b', hb'⟩ := Option.ne_none_iff_exists'.1 (Nat.find_spec hex)
      have hmin : ∀ m < Nat.find hex, found m = none := fun m hm => not_not.1 (Nat.find_min hex hm)
      have hlt : Nat.find hex < limit := by
        by_contra hge
        exact hall fun n hn => hmin n (by omega)
      obtain rfl := hb.unique (endsIn_search_found hlt hb' hmin)
      exact .inl ⟨Nat.find hex, hlt, hb', hmin⟩
  · rintro (⟨n, hn, hb, hmin⟩ | ⟨hall, rfl⟩)
    · exact endsIn_search_found hn hb hmin
    · exact endsIn_search_exhausted hlimit hall

end

/-- Of distinct candidates, one is free if fewer are taken. -/
theorem exists_free {α : Type} [DecidableEq α] {candidate : Nat → α} {first limit : Nat}
    (hinj : ∀ m n, first ≤ m → first ≤ n → candidate m = candidate n → m = n) {taken : Finset α}
    (h : taken.card < limit - first) : ∃ n < limit, candidate n ∉ taken := by
  have hcard : ((Finset.Ico first limit).image candidate).card = limit - first := by
    rw [Finset.card_image_of_injOn, Nat.card_Ico]
    intro m hm n hn heq
    exact hinj m n (Finset.mem_Ico.1 hm).1 (Finset.mem_Ico.1 hn).1 heq
  obtain ⟨name, hname, hfree⟩ := Finset.exists_mem_notMem_of_card_lt_card (hcard ▸ h)
  obtain ⟨n, hn, rfl⟩ := Finset.mem_image.1 hname
  exact ⟨n, (Finset.mem_Ico.1 hn).2, hfree⟩

end Loop
