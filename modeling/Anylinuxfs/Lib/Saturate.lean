import Mathlib.Data.Finset.Card
import Mathlib.Logic.Relation

/-!
# Saturation in levels

Things lead to other things. A level takes up those of a list that have not been taken up before, and ends with a list of what they
lead to, from which the next level starts. If no level leaves anything out, what has been taken up when the list is empty is all that
the start leads to.
-/

namespace Saturate

variable {κ : Type} {next : κ → κ → Prop} {start : κ → Prop} {finished todo fresh later : List κ}

/-- What the start leads to. -/
def Closure (next : κ → κ → Prop) (start : κ → Prop) (k : κ) : Prop := ∃ s, start s ∧ Relation.ReflTransGen next s k

/-- A level takes up the things `fresh` of the list `todo`; `later` is what they lead to. -/
structure Level (next : κ → κ → Prop) (finished todo fresh later : List κ) : Prop where
  distinct : fresh.Nodup
  todo : ∀ k ∈ fresh, k ∈ todo
  new : ∀ k ∈ fresh, k ∉ finished
  later : ∀ q, q ∈ later ↔ ∃ k ∈ fresh, next k q

/-- A level that leaves nothing out. -/
def Complete (finished todo fresh : List κ) : Prop := ∀ k ∈ todo, k ∈ finished ∨ k ∈ fresh

/-- Nothing is taken up twice, and everything comes from the start. -/
structure Sound (next : κ → κ → Prop) (start : κ → Prop) (finished todo : List κ) : Prop where
  distinct : finished.Nodup
  finished : ∀ k ∈ finished, Closure next start k
  todo : ∀ k ∈ todo, Closure next start k

/-- The start, and what the things that have been taken up lead to, has been taken up too or is in the list. -/
structure Saturated (next : κ → κ → Prop) (start : κ → Prop) (finished todo : List κ) : Prop where
  start : ∀ k, start k → k ∈ finished ∨ k ∈ todo
  next : ∀ k ∈ finished, ∀ q, next k q → q ∈ finished ∨ q ∈ todo

theorem Closure.tail {k q : κ} (h : Closure next start k) (hq : next k q) : Closure next start q := by
  obtain ⟨s, hs, hk⟩ := h
  exact ⟨s, hs, hk.tail hq⟩

theorem Sound.level (h : Sound next start finished todo) (hlevel : Level next finished todo fresh later) :
    Sound next start (finished ++ fresh) later where
  distinct := List.nodup_append'.2 ⟨h.distinct, hlevel.distinct, fun k hk hfresh => hlevel.new k hfresh hk⟩
  finished k hk := by
    rcases List.mem_append.1 hk with hk | hk
    · exact h.finished k hk
    · exact h.todo k (hlevel.todo k hk)
  todo q hq := by
    obtain ⟨k, hk, hnext⟩ := (hlevel.later q).1 hq
    exact (h.todo k (hlevel.todo k hk)).tail hnext

theorem Saturated.level (h : Saturated next start finished todo) (hlevel : Level next finished todo fresh later)
    (hcomplete : Complete finished todo fresh) : Saturated next start (finished ++ fresh) later := by
  have hdone : ∀ k, k ∈ finished ∨ k ∈ todo → k ∈ finished ++ fresh := by
    rintro k (hk | hk)
    · exact List.mem_append_left _ hk
    · exact List.mem_append.2 (hcomplete k hk)
  constructor
  · exact fun k hk => .inl (hdone k (h.start k hk))
  · intro k hk q hq
    rcases List.mem_append.1 hk with hk | hk
    · exact .inl (hdone q (h.next k hk q hq))
    · exact .inr ((hlevel.later q).2 ⟨k, hk, hq⟩)

/-- When nothing is left to do, what has been taken up is the closure of the start. -/
theorem Saturated.mem_iff (h : Saturated next start finished []) (hsound : Sound next start finished []) (k : κ) :
    k ∈ finished ↔ Closure next start k := by
  constructor
  · exact hsound.finished k
  · rintro ⟨s, hs, hk⟩
    induction hk with
    | refl => exact (h.start s hs).resolve_right List.not_mem_nil
    | tail _ hq ih => exact (h.next _ ih _ hq).resolve_right List.not_mem_nil

/-- A level takes something up if it leads anywhere. -/
theorem Level.fresh_ne_nil (h : Level next finished todo fresh later) (hlater : later ≠ []) : fresh ≠ [] := by
  rintro rfl
  obtain ⟨q, hq⟩ := List.exists_mem_of_ne_nil later hlater
  obtain ⟨k, hk, _⟩ := (h.later q).1 hq
  cases hk

/-- What is taken up is no more than there is. -/
theorem Sound.length_le (h : Sound next start finished todo) {all : Finset κ} (hall : ∀ k, Closure next start k → k ∈ all) :
    finished.length ≤ all.card := by
  classical
  rw [← List.toFinset_card_of_nodup h.distinct]
  exact Finset.card_le_card fun k hk => hall k (h.finished k (List.mem_toFinset.1 hk))

/-- A level that leads anywhere leaves less to take up. -/
theorem Sound.measure_lt (h : Sound next start finished todo) (hlevel : Level next finished todo fresh later) (hlater : later ≠ [])
    {all : Finset κ} (hall : ∀ k, Closure next start k → k ∈ all) : all.card - (finished ++ fresh).length < all.card - finished.length := by
  have hle := (h.level hlevel).length_le hall
  have hpos := List.length_pos_iff.2 (hlevel.fresh_ne_nil hlater)
  rw [List.length_append] at hle ⊢
  omega

end Saturate
