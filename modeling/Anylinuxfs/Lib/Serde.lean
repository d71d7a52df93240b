import Mathlib.Data.List.Nodup
import Mathlib.Data.String.Basic

/-!
# Documents and the types they are read as

A document of settings is a table of values. `Deserialize` and `Serialize` say how a type is read from a value and written as
one, and the readers of `Fields` how the fields of a structure are found: by name in a table, by place in an array. A type is
lawful if what is written of it is read back.
-/

namespace Serde

/-- A value of a document. -/
inductive Value where
  | str (s : List Char)
  | int (n : Int)
  | float (bits : UInt64)
  | bool (b : Bool)
  | datetime (s : List Char)
  | array (vs : List Value)
  | table (kvs : List (String × Value))

/-- The entries a visitor of maps is given. A date is given to it as a map with one entry. -/
def Value.entries : Value → Option (List (String × Value))
  | .table kvs => some kvs
  | .datetime s => some [("$__toml_private_datetime", .str s)]
  | _ => none

/-- Where the fields of a structure are looked for. -/
inductive Fields where
  | named (kvs : List (String × Value))
  | placed (vs : List Value)

/-- A structure is read from a map or from a sequence. -/
def Value.fields : Value → Option Fields
  | .array vs => some (.placed vs)
  | v => v.entries.map .named

/-- The value of the field that stands at place `i` of the structure. -/
def Fields.get : Fields → Nat → String → Option Value
  | .named kvs, _, name => kvs.lookup name
  | .placed vs, i, _ => vs[i]?

/-- The fields are found by their names. -/
def Fields.isNamed : Fields → Bool
  | .named _ => true
  | .placed _ => false

/-- The value that a text gives to a field of a structure, if it gives it one. -/
def Value.setting (v : Value) (i : Nat) (name : String) : Option Value := v.fields.bind (fun f => f.get i name)

/-- The types that can be read from a value. -/
class Deserialize (α : Type) where
  de : Value → Option α

/-- The types that can be written as a value. -/
class Serialize (α : Type) where
  ser : α → Value

export Deserialize (de)
export Serialize (ser)

/-- What is written is read back. -/
class LawfulSerde (α : Type) [Deserialize α] [Serialize α] : Prop where
  de_ser : ∀ x : α, de (ser x) = some x

export LawfulSerde (de_ser)

attribute [simp] LawfulSerde.de_ser

/-! ## Plain types -/

instance : Deserialize (List Char) where
  de
    | .str s => some s
    | _ => none

instance : Serialize (List Char) where
  ser := .str

instance : LawfulSerde (List Char) where
  de_ser _ := rfl

instance : Deserialize Bool where
  de
    | .bool b => some b
    | _ => none

instance : Serialize Bool where
  ser := .bool

instance : LawfulSerde Bool where
  de_ser _ := rfl

/-- An unsigned number, from a number in its range. -/
def deUnsigned {α : Type} (size : Nat) (ofNat : Nat → α) : Value → Option α
  | .int n => if 0 ≤ n ∧ n < size then some (ofNat n.toNat) else none
  | _ => none

/-- A number that fits is read. -/
theorem deUnsigned_int {α : Type} {size n : Nat} (ofNat : Nat → α) (h : n < size) :
    deUnsigned size ofNat (.int n) = some (ofNat n) := by
  simp [deUnsigned, h]

instance : Deserialize UInt8 where
  de := deUnsigned UInt8.size UInt8.ofNat

instance : Serialize UInt8 where
  ser n := .int n.toNat

instance : LawfulSerde UInt8 where
  de_ser n := (deUnsigned_int UInt8.ofNat n.toNat_lt_size).trans (by simp)

instance : Deserialize UInt32 where
  de := deUnsigned UInt32.size UInt32.ofNat

instance : Serialize UInt32 where
  ser n := .int n.toNat

instance : LawfulSerde UInt32 where
  de_ser n := (deUnsigned_int UInt32.ofNat n.toNat_lt_size).trans (by simp)

/-! ## Sequences, options and variants -/

section

variable {α : Type} [Deserialize α]

instance : Deserialize (List α) where
  de
    | .array vs => vs.mapM de
    | _ => none

instance [Serialize α] : Serialize (List α) where
  ser xs := .array (xs.map ser)

/-- A value that is there is one of the type. -/
instance : Deserialize (Option α) where
  de v := (de v).map some

/-- The values of a list are read one by one. -/
theorem mapM_de_ser [Serialize α] [LawfulSerde α] (xs : List α) : (xs.map ser).mapM (de : Value → Option α) = some xs := by
  induction xs with
  | nil => rfl
  | cons x xs ih => simp [ih]

instance [Serialize α] [LawfulSerde α] : LawfulSerde (List α) where
  de_ser xs := mapM_de_ser xs

end

/-- A variant without data: its name, or a table with its name as the only key and nothing in it. -/
def deVariant {α : Type} (variants : List (String × α)) : Value → Option α
  | .str s => variants.lookup (String.ofList s)
  | .table [(name, .array [])] => variants.lookup name
  | .table [(name, .table [])] => variants.lookup name
  | _ => none

/-! ## Fields -/

namespace Fields

variable {α : Type} [Deserialize α] {f : Fields} {i : Nat} {name : String}

/-- A field that has to be there. -/
def required (f : Fields) (i : Nat) (name : String) : Option α := (f.get i name).bind de

/-- A field with `#[serde(default)]`. -/
def default (f : Fields) (d : α) (i : Nat) (name : String) : Option α :=
  match f.get i name with
  | some v => de v
  | none => some d

/-- A field of an option type: a map may leave it out, a sequence may not. -/
def optional (f : Fields) (i : Nat) (name : String) : Option (Option α) :=
  match f.get i name with
  | some v => de v
  | none => if f.isNamed then some none else none

end Fields

/-! ## Settings that are kept -/

section

variable {α : Type} [Deserialize α] {v : Value} {f : Fields} {i : Nat} {name : String} {x : α}

/-- A setting of a document has the value that the document gives it; one that the document does not name may have any. -/
def Kept (setting : Option Value) (x : α) : Prop := ∀ v ∈ setting, de v = some x

/-- A setting is looked for where the fields are. -/
theorem Value.setting_eq (hf : v.fields = some f) : v.setting i name = f.get i name := by
  rw [Value.setting, hf, Option.bind_some]

/-- In a table, a setting is looked for by its name. -/
@[simp]
theorem Value.setting_table (kvs : List (String × Value)) : (Value.table kvs).setting i name = kvs.lookup name := rfl

/-- A field that is read, and has to be there, is what the text gives it. -/
theorem Value.kept_of_required (hf : v.fields = some f) (h : f.required i name = some x) : Kept (v.setting i name) x := by
  intro w hw
  rw [Value.setting_eq hf] at hw
  rw [Fields.required, Option.mem_def.1 hw] at h
  exact h

/-- A field that is read, and has a default, is what the text gives it, if it does. -/
theorem Value.kept_of_default {d : α} (hf : v.fields = some f) (h : f.default d i name = some x) :
    Kept (v.setting i name) x := by
  intro w hw
  rw [Value.setting_eq hf] at hw
  rw [Fields.default, Option.mem_def.1 hw] at h
  exact h

/-- A field that is read, and may be missing, is what the text gives it, if it does. -/
theorem Value.kept_of_optional {x : Option α} (hf : v.fields = some f) (h : f.optional i name = some x) :
    Kept (v.setting i name) x := by
  intro w hw
  rw [Value.setting_eq hf] at hw
  rw [Fields.optional, Option.mem_def.1 hw] at h
  exact h

/-- A setting that a document gives a value is not lost to a field that has none. -/
theorem Kept.eq_none {s : Option Value} (h : Kept s (none : Option α)) : s = none := by
  cases s with
  | none => rfl
  | some v => exact absurd (h v rfl) (by simp [de])

/-- What the text does not give is kept by any value. -/
theorem Kept.of_eq_none {s : Option Value} (h : s = none) (x : α) : Kept s x := by
  intro v hv
  rw [h] at hv
  cases hv

end

/-! ## Structures as tables -/

/-- The entries of the fields of a structure. A field without a value is left out. -/
def fieldEntries : List (String × Option Value) → List (String × Value)
  | [] => []
  | (name, some v) :: fs => (name, v) :: fieldEntries fs
  | (_, none) :: fs => fieldEntries fs

/-- A structure as a table. -/
def record (fs : List (String × Option Value)) : Value := .table (fieldEntries fs)

section

variable {α : Type} [Deserialize α] [Serialize α] [LawfulSerde α] {fs : List (String × Option Value)} {i : Nat} {name : String}

/-- The entries of a record with different names have the fields that are written. -/
theorem lookup_fieldEntries (h : (fs.map Prod.fst).Nodup) : (fieldEntries fs).lookup name = (fs.lookup name).join := by
  induction fs with
  | nil => rfl
  | cons f fs ih =>
    obtain ⟨k, o⟩ := f
    obtain ⟨hk, hfs⟩ := List.nodup_cons.1 h
    cases o with
    | none =>
      rw [fieldEntries, ih hfs, List.lookup_cons]
      cases hn : name == k with
      | false => rfl
      | true =>
        have hnone : fs.lookup name = none := List.lookup_eq_none_iff.2 (fun p hp => by
          rw [beq_iff_eq.1 hn, bne_iff_ne]
          intro h
          exact hk (List.mem_map.2 ⟨p, hp, h.symm⟩))
        rw [hnone]
        rfl
    | some v =>
      rw [fieldEntries, List.lookup_cons, List.lookup_cons, ih hfs]
      cases name == k <;> rfl

/-- The fields of a record are found by their names. -/
theorem fields_record (fs : List (String × Option Value)) : (record fs).fields = some (.named (fieldEntries fs)) := rfl

/-- A field that is written is read where it has to be there. -/
theorem required_fieldEntries {x : α} (h : (fs.map Prod.fst).Nodup) (hl : (fs.lookup name).join = some (ser x)) :
    (Fields.named (fieldEntries fs)).required i name = some x := by
  rw [Fields.required, Fields.get, lookup_fieldEntries h, hl]
  exact de_ser x

/-- A field that is written is read where it has a default. -/
theorem default_fieldEntries {x d : α} (h : (fs.map Prod.fst).Nodup) (hl : (fs.lookup name).join = some (ser x)) :
    (Fields.named (fieldEntries fs)).default d i name = some x := by
  rw [Fields.default, Fields.get, lookup_fieldEntries h, hl]
  exact de_ser x

/-- A field that may be missing is read as it is written. -/
theorem optional_fieldEntries {o : Option α} (h : (fs.map Prod.fst).Nodup) (hl : (fs.lookup name).join = o.map ser) :
    (Fields.named (fieldEntries fs)).optional i name = some o := by
  rw [Fields.optional, Fields.get, lookup_fieldEntries h, hl]
  cases o with
  | none => rfl
  | some x => exact congrArg (Option.map some) (de_ser x)

end

/-! ## Maps -/

/-- A map: its entries, in the order of their keys. -/
structure BTreeMap (α : Type) where
  entries : List (String × α)
  sorted : entries.Pairwise (fun a b => a.1 < b.1)
  deriving DecidableEq

/-- The entries with one more. -/
def insertEntry {α : Type} (k : String) (x : α) : List (String × α) → List (String × α)
  | [] => [(k, x)]
  | (k', x') :: rest =>
    if k < k' then (k, x) :: (k', x') :: rest
    else if k = k' then (k, x) :: rest
    else (k', x') :: insertEntry k x rest

section

variable {α β : Type} {k : String} {x : α} {l : List (String × α)}

/-- An insertion adds one entry at most. -/
theorem eq_or_mem_of_mem_insertEntry {e : String × α} (h : e ∈ insertEntry k x l) : e = (k, x) ∨ e ∈ l := by
  fun_induction insertEntry k x l with
  | case1 => simpa using h
  | case2 => simpa using h
  | case3 =>
    rcases List.mem_cons.1 h with h | h
    · exact Or.inl h
    · exact Or.inr (List.mem_cons_of_mem _ h)
  | case4 k' x' rest _ _ ih =>
    rcases List.mem_cons.1 h with h | h
    · exact Or.inr (h ▸ List.mem_cons_self)
    · exact (ih h).imp_right (List.mem_cons_of_mem _)

/-- An insertion keeps the keys sorted. -/
theorem sorted_insertEntry (h : l.Pairwise (fun a b => a.1 < b.1)) :
    (insertEntry k x l).Pairwise (fun a b => a.1 < b.1) := by
  fun_induction insertEntry k x l with
  | case1 => exact List.pairwise_singleton _ _
  | case2 k' x' rest hlt =>
    refine List.pairwise_cons.2 ⟨fun e he => ?_, h⟩
    rcases List.mem_cons.1 he with rfl | he
    · exact hlt
    · exact hlt.trans (List.rel_of_pairwise_cons h he)
  | case3 x' rest _ => exact List.pairwise_cons.2 ⟨(List.pairwise_cons.1 h).1, h.of_cons⟩
  | case4 k' x' rest hlt hne ih =>
    refine List.pairwise_cons.2 ⟨fun e he => ?_, ih h.of_cons⟩
    rcases eq_or_mem_of_mem_insertEntry he with rfl | he
    · exact lt_of_le_of_ne (not_lt.1 hlt) (Ne.symm hne)
    · exact List.rel_of_pairwise_cons h he

/-- The first entry of a list is found first. -/
theorem lookup_cons_ite (k' : String) : ((k, x) :: l).lookup k' = if k' = k then some x else l.lookup k' := by
  rw [List.lookup_cons]
  by_cases h : k' = k
  · rw [if_pos h, beq_iff_eq.2 h]
  · rw [if_neg h, beq_eq_false_iff_ne.2 h]

/-- The entry that is inserted is found, and the others are as before. -/
theorem lookup_insertEntry (k' : String) : (insertEntry k x l).lookup k' = if k' = k then some x else l.lookup k' := by
  fun_induction insertEntry k x l with
  | case1 => exact lookup_cons_ite k'
  | case2 => exact lookup_cons_ite k'
  | case3 =>
    simp only [lookup_cons_ite]
    split <;> rfl
  | case4 k₁ x₁ rest hlt hne ih =>
    simp only [lookup_cons_ite, ih]
    by_cases h : k' = k
    · rw [if_pos h, if_pos h, if_neg (h ▸ hne)]
    · rw [if_neg h, if_neg h]

/-- An entry that comes before all others. -/
theorem insertEntry_of_lt (h : ∀ e ∈ l, k < e.1) : insertEntry k x l = (k, x) :: l := by
  cases l with
  | nil => rfl
  | cons e l => rw [insertEntry, if_pos (h e List.mem_cons_self)]

namespace BTreeMap

/-- The value of a key. -/
def get (m : BTreeMap α) (k : String) : Option α := m.entries.lookup k

/-- A map that is built from a list is sorted by its keys. -/
theorem sorted_foldr (l : List (String × α)) :
    (l.foldr (fun e m => insertEntry e.1 e.2 m) []).Pairwise (fun a b => a.1 < b.1) := by
  induction l with
  | nil => exact List.Pairwise.nil
  | cons e l ih => exact sorted_insertEntry ih

/-- The map of some entries. The keys of a table are unique; of two entries with one key the first would stay. -/
def ofList (l : List (String × α)) : BTreeMap α := ⟨l.foldr (fun e m => insertEntry e.1 e.2 m) [], sorted_foldr l⟩

/-- A map that is built from a list has what is found first there. -/
theorem get_ofList (l : List (String × α)) (k : String) : (ofList l).get k = l.lookup k := by
  induction l with
  | nil => rfl
  | cons e l ih =>
    have hi : (ofList (e :: l)).get k = if k = e.1 then some e.2 else (ofList l).get k := lookup_insertEntry k
    rw [hi, ih, ← lookup_cons_ite]

/-- The entries of a map make it again. -/
theorem ofList_entries (m : BTreeMap α) : ofList m.entries = m := by
  obtain ⟨l, h⟩ := m
  have hf : l.foldr (fun e m => insertEntry e.1 e.2 m) [] = l := by
    induction l with
    | nil => rfl
    | cons e l ih =>
      rw [List.foldr_cons, ih h.of_cons, insertEntry_of_lt (List.pairwise_cons.1 h).1]
  simp only [ofList, hf]

/-- The map with every value replaced. -/
def map (f : α → β) (m : BTreeMap α) : BTreeMap β :=
  ⟨m.entries.map (fun e => (e.1, f e.2)), List.pairwise_map.2 m.sorted⟩

/-- The values of a map are changed one by one. -/
theorem get_map (f : α → β) (m : BTreeMap α) (k : String) : (m.map f).get k = (m.get k).map f := by
  obtain ⟨l, h⟩ := m
  simp only [map, get]
  clear h
  induction l with
  | nil => rfl
  | cons e l ih =>
    obtain ⟨k', x⟩ := e
    simp only [List.map_cons, lookup_cons_ite, ih]
    split <;> rfl

end BTreeMap

end

section

variable {α : Type} [Deserialize α]

/-- A map with its values read. -/
def deEntries (kvs : List (String × Value)) : Option (List (String × α)) := kvs.mapM (fun e => (de e.2).map (e.1, ·))

instance : Deserialize (BTreeMap α) where
  de v := v.entries.bind (fun kvs => (deEntries kvs).map .ofList)

instance [Serialize α] : Serialize (BTreeMap α) where
  ser m := .table (m.entries.map (fun e => (e.1, ser e.2)))

/-- The entries of a map are read as they are written. -/
theorem deEntries_ser [Serialize α] [LawfulSerde α] (l : List (String × α)) :
    deEntries (l.map (fun e => (e.1, ser e.2))) = some l := by
  induction l with
  | nil => rfl
  | cons e l ih =>
    simp only [deEntries, List.map_cons, List.mapM_cons] at ih ⊢
    simp [ih]

instance [Serialize α] [LawfulSerde α] : LawfulSerde (BTreeMap α) where
  de_ser m := by
    simp only [de, ser, Value.entries, Option.bind_some, deEntries_ser, Option.map_some, BTreeMap.ofList_entries]

/-- Every entry of a table is read. -/
theorem exists_lookup_deEntries {kvs : List (String × Value)} {l : List (String × α)} {k : String} {v : Value}
    (h : deEntries kvs = some l) (hv : kvs.lookup k = some v) : ∃ x, l.lookup k = some x ∧ de v = some x := by
  induction kvs generalizing l with
  | nil => cases hv
  | cons e kvs ih =>
    obtain ⟨k', v'⟩ := e
    simp only [deEntries, List.mapM_cons, Option.bind_eq_bind, Option.bind_eq_some_iff, Option.map_eq_some_iff] at h
    obtain ⟨_, ⟨x, hx, rfl⟩, l', hl', h⟩ := h
    cases h
    simp only [lookup_cons_ite] at hv ⊢
    by_cases hk : k = k'
    · rw [if_pos hk] at hv ⊢
      cases hv
      exact ⟨x, rfl, hx⟩
    · rw [if_neg hk] at hv ⊢
      exact ih hl' hv

/-- Every entry of a table is in the map that is read from it. -/
theorem BTreeMap.exists_get_of_de {v w : Value} {kvs : List (String × Value)} {m : BTreeMap α} {k : String}
    (h : de v = some m) (hkvs : v.entries = some kvs) (hw : kvs.lookup k = some w) : ∃ x, m.get k = some x ∧ de w = some x := by
  simp only [de, hkvs, Option.bind_some, Option.map_eq_some_iff] at h
  obtain ⟨l, hl, rfl⟩ := h
  rw [BTreeMap.get_ofList]
  exact exists_lookup_deEntries hl hw

end

end Serde
