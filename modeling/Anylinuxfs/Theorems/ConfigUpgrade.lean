import Anylinuxfs.ConfigUpgrade
import Anylinuxfs.Lib.Correspond

/-!
# What an upgrade keeps

A table that both documents have at the top is filled key by key, but an item under one of its keys is taken from the default config
as it is, and what the user has below it is lost. A second upgrade changes nothing.
-/

namespace Anylinuxfs

namespace ConfigUpgrade

variable {default : DefaultConfig} {dst src table items user merged : Table} {key k : String} {item dstItem : Item}
  {step : Step} {path : List Step}

/-! ## Tables -/

/-- The keys that a table takes over. -/
def allowed (path key : String) : Bool := absKey path key ∉ obsoleteKeys

theorem mergeTomlTables_eq_fill (dst src : Table) (path : String) : mergeTomlTables dst src path = Fill.fill (allowed path) dst src := by
  rw [mergeTomlTables, Fill.fill]
  refine List.foldl_ext _ _ _ fun dst entry _ => ?_
  rw [Fill.add, allowed]
  simp only [decide_eq_true_eq]

theorem lookup_mergeTomlTables (dst src : Table) (path k : String) :
    (mergeTomlTables dst src path).lookup k = (dst.lookup k).or (if allowed path k then src.lookup k else none) := by
  rw [mergeTomlTables_eq_fill, Fill.lookup_fill]

/-- A table that has been filled is filled by itself. -/
theorem mergeTomlTables_again (dst src : Table) (path : String) :
    mergeTomlTables dst (mergeTomlTables dst src path) path = mergeTomlTables dst src path := by
  rw [mergeTomlTables_eq_fill, mergeTomlTables_eq_fill, Fill.fill_fill]

theorem mergeTomlTables_self (dst : Table) (path : String) : mergeTomlTables dst dst path = dst := by
  rw [mergeTomlTables_eq_fill]
  exact Fill.fill_of_mem fun entry hentry => List.mem_map_of_mem hentry

/-! ## Entries -/

/-- What becomes of an item of the default config, by what the user has under its key. -/
def mergeUnder (key : String) (dstItem : Item) : Option Item → Except MergeError Item
  | none => .ok dstItem
  | some srcItem => mergeItem key dstItem srcItem

theorem mergeEntry_eq (src : Table) (key : String) (dstItem : Item) :
    mergeEntry src (key, dstItem) = (mergeUnder key dstItem (src.lookup key)).map fun item => (key, item) := by
  rw [mergeEntry]
  cases src.lookup key with
  | none => rfl
  | some srcItem => rfl

theorem mergeEntry_eq_ok_iff {entry entry' : String × Item} :
    mergeEntry src entry = .ok entry' ↔ entry'.1 = entry.1 ∧ mergeUnder entry.1 entry.2 (src.lookup entry.1) = .ok entry'.2 := by
  obtain ⟨key, dstItem⟩ := entry
  obtain ⟨key', item⟩ := entry'
  rw [mergeEntry_eq]
  cases mergeUnder key dstItem (src.lookup key) with
  | error err => simp [Except.map]
  | ok item' => simp [Except.map, eq_comm]

/-- An item merged with what it has become stays that way. -/
theorem mergeItem_again {srcItem : Option Item} (hplain : ∀ tables, dstItem ≠ .arrayOfTables tables)
    (h : mergeUnder key dstItem srcItem = .ok item) : mergeItem key dstItem item = .ok item := by
  cases dstItem with
  | arrayOfTables tables => exact absurd rfl (hplain tables)
  | value v =>
    cases srcItem with
    | none =>
      obtain rfl := Except.ok.inj h
      rfl
    | some srcItem =>
      cases srcItem with
      | value v' =>
        obtain rfl := Except.ok.inj h
        rfl
      | table src => cases h
      | arrayOfTables tables => cases h
  | table table =>
    cases srcItem with
    | none =>
      obtain rfl := Except.ok.inj h
      rw [mergeItem, mergeTomlTables_self]
    | some srcItem =>
      cases srcItem with
      | value v' => cases h
      | table src =>
        obtain rfl := Except.ok.inj h
        rw [mergeItem, mergeTomlTables_again]
      | arrayOfTables tables => cases h

/-! ## Documents -/

/-- The items of the default config, each merged with that of the user under its key. -/
def Entries (src dst items : Table) : Prop := List.Forall₂ (fun entry entry' => mergeEntry src entry = .ok entry') dst items

theorem mergeTomlConfigs_eq_ok_iff :
    mergeTomlConfigs dst src = .ok merged ↔ ∃ items, Entries src dst items ∧ mergeTomlTables items src "" = merged := by
  rw [mergeTomlConfigs]
  constructor
  · intro h
    cases hitems : dst.mapM (mergeEntry src) with
    | error err =>
      rw [hitems] at h
      cases h
    | ok items =>
      rw [hitems] at h
      exact ⟨items, Correspond.mapM_eq_ok_iff.1 hitems, Except.ok.inj h⟩
  · rintro ⟨items, hitems, rfl⟩
    rw [Correspond.mapM_eq_ok_iff.2 hitems]
    rfl

theorem lookup_items (h : Entries src dst items) (key : String) :
    Option.Rel (fun dstItem item => mergeUnder key dstItem (src.lookup key) = .ok item) (dst.lookup key) (items.lookup key) := by
  induction h with
  | nil => exact .none
  | @cons entry entry' dst items hentry _ ih =>
    obtain ⟨hkey, hmerge⟩ := mergeEntry_eq_ok_iff.1 hentry
    by_cases hfound : key = entry.1
    · rw [List.lookup_cons, List.lookup_cons, hkey, beq_iff_eq.2 hfound, hfound]
      exact .some hmerge
    · rw [List.lookup_cons, List.lookup_cons, hkey, beq_eq_false_iff_ne.2 hfound]
      exact ih

/-- The item of the merged document under a key. -/
theorem lookup_mergeTomlConfigs (h : mergeTomlConfigs dst src = .ok merged) (key : String) :
    (dst.lookup key = none ∧ merged.lookup key = if allowed "" key then src.lookup key else none) ∨
      ∃ dstItem item, dst.lookup key = some dstItem ∧ merged.lookup key = some item ∧
        mergeUnder key dstItem (src.lookup key) = .ok item := by
  obtain ⟨items, hitems, rfl⟩ := mergeTomlConfigs_eq_ok_iff.1 h
  have hrel := lookup_items hitems key
  rw [lookup_mergeTomlTables]
  cases hdst : dst.lookup key with
  | none =>
    rw [hdst] at hrel
    generalize items.lookup key = found at hrel
    cases hrel
    exact .inl ⟨rfl, rfl⟩
  | some dstItem =>
    rw [hdst] at hrel
    generalize items.lookup key = found at hrel
    cases hrel with
    | some hmerge => exact .inr ⟨dstItem, _, rfl, rfl, hmerge⟩

/-- A document that has been merged is merged to itself. -/
theorem mergeTomlConfigs_again (h : mergeTomlConfigs default.entries user = .ok merged) :
    mergeTomlConfigs default.entries merged = .ok merged := by
  obtain ⟨items, hitems, htables⟩ := mergeTomlConfigs_eq_ok_iff.1 h
  refine mergeTomlConfigs_eq_ok_iff.2 ⟨items, ?_, by rw [← htables, mergeTomlTables_again]⟩
  have hmem := (List.forall₂_and_left _ _).2 ⟨fun entry (hentry : entry ∈ default.entries) => hentry, hitems⟩
  refine hmem.imp fun entry entry' ⟨hentry, hmerge⟩ => ?_
  obtain ⟨hkey, hunder⟩ := mergeEntry_eq_ok_iff.1 hmerge
  have hlookup : default.entries.lookup entry.1 = some entry.2 := Fill.lookup_of_mem default.distinct hentry
  rw [mergeEntry_eq_ok_iff]
  rcases lookup_mergeTomlConfigs h entry.1 with ⟨hnone, _⟩ | ⟨dstItem, item, hdst, hitem, hunder'⟩
  · rw [hlookup] at hnone
    cases hnone
  · obtain rfl := Option.some.inj (hlookup.symm.trans hdst)
    obtain rfl := Except.ok.inj (hunder.symm.trans hunder')
    rw [hitem]
    exact ⟨hkey, mergeItem_again (default.plain entry hentry) hunder⟩

/-! ## Paths -/

theorem hasPath_nil (item : Item) : item.HasPath [] := rfl

theorem hasPath_cons : item.HasPath (step :: path) ↔ ∃ part, item.child step = some part ∧ part.HasPath path := by
  rw [Item.HasPath, List.foldlM_cons]
  cases hpart : item.child step with
  | none => simp
  | some part => simp [Item.HasPath]

theorem table_hasPath_cons :
    (Item.table table).HasPath (step :: path) ↔ ∃ key item, step = .key key ∧ table.lookup key = some item ∧ item.HasPath path := by
  rw [hasPath_cons]
  cases step with
  | key key => exact ⟨fun ⟨item, hitem, hpath⟩ => ⟨key, item, rfl, hitem, hpath⟩,
      fun ⟨_, item, heq, hitem, hpath⟩ => ⟨item, Step.key.inj heq ▸ hitem, hpath⟩⟩
  | index i => exact ⟨nofun, nofun⟩

theorem not_replaced_of_lookup (h : ∀ table, default.entries.lookup key ≠ some (.table table)) : ¬ Replaced default (.key key :: path) := by
  rintro ⟨htable, _, _⟩
  exact h _ htable

/-- Below a table that both documents have, a path that is not obsolete is lost if the default has an item in its way without it. -/
theorem table_kept (hdst : default.entries.lookup key = some (.table table)) (hobsolete : ¬ Obsolete (.key key :: path))
    (h : (Item.table src).HasPath path) :
    (Item.table (mergeTomlTables table src key)).HasPath path ↔ ¬ Replaced default (.key key :: path) := by
  cases path with
  | nil => exact iff_of_true (hasPath_nil _) nofun
  | cons step rest =>
    obtain ⟨k, srcItem, rfl, hsrc, hrest⟩ := table_hasPath_cons.1 h
    have hmerged := lookup_mergeTomlTables table src key k
    have hallowed : allowed key k = true := decide_eq_true fun hmem => hobsolete (.nested hmem rest)
    cases hitem : table.lookup k with
    | none =>
      rw [hitem, Option.none_or, if_pos hallowed, hsrc] at hmerged
      refine iff_of_true (table_hasPath_cons.2 ⟨k, srcItem, rfl, hmerged, hrest⟩) ?_
      rintro ⟨htable, hitem', _⟩
      obtain rfl := Item.table.inj (Option.some.inj (hdst.symm.trans htable))
      rw [hitem] at hitem'
      cases hitem'
    | some dstItem =>
      rw [hitem, Option.some_or] at hmerged
      constructor
      · intro hpath hreplaced
        obtain ⟨htable, hitem', hnot⟩ := hreplaced
        obtain rfl := Item.table.inj (Option.some.inj (hdst.symm.trans htable))
        obtain ⟨_, item, heq, hlookup, hpath⟩ := table_hasPath_cons.1 hpath
        obtain rfl := Step.key.inj heq
        obtain rfl := Option.some.inj (hmerged.symm.trans hlookup)
        obtain rfl := Option.some.inj (hitem.symm.trans hitem')
        exact hnot hpath
      · intro hreplaced
        refine table_hasPath_cons.2 ⟨k, dstItem, rfl, hmerged, ?_⟩
        by_contra hnot
        exact hreplaced (.below hdst hitem hnot)

/-- What the user has is in the merged document, but not below an item of the default config in one of its tables. -/
theorem mergeTomlConfigs_kept (h : mergeTomlConfigs default.entries user = .ok merged) (hobsolete : ¬ Obsolete path)
    (huser : (Item.table user).HasPath path) : (Item.table merged).HasPath path ↔ ¬ Replaced default path := by
  cases path with
  | nil => exact iff_of_true (hasPath_nil _) nofun
  | cons step rest =>
    obtain ⟨key, srcItem, rfl, hsrc, hrest⟩ := table_hasPath_cons.1 huser
    rcases lookup_mergeTomlConfigs h key with ⟨hnone, hmerged⟩ | ⟨dstItem, item, hdst, hmerged, hunder⟩
    · have hallowed : allowed "" key = true := decide_eq_true fun hmem => hobsolete (.top hmem rest)
      rw [if_pos hallowed, hsrc] at hmerged
      exact iff_of_true (table_hasPath_cons.2 ⟨key, srcItem, rfl, hmerged, hrest⟩) (not_replaced_of_lookup fun table => by rw [hnone]; nofun)
    · have hpath : (Item.table merged).HasPath (.key key :: rest) ↔ item.HasPath rest := by
        rw [hasPath_cons]
        change (∃ part, merged.lookup key = some part ∧ part.HasPath rest) ↔ _
        rw [hmerged]
        exact ⟨fun ⟨_, hpart, hrest⟩ => Option.some.inj hpart ▸ hrest, fun hrest => ⟨item, rfl, hrest⟩⟩
      rw [hpath]
      rw [hsrc] at hunder
      cases dstItem with
      | arrayOfTables tables => cases hunder
      | value v =>
        cases srcItem with
        | value v' =>
          obtain rfl := Except.ok.inj hunder
          exact iff_of_true hrest (not_replaced_of_lookup fun table => by rw [hdst]; nofun)
        | table src => cases hunder
        | arrayOfTables tables => cases hunder
      | table table =>
        cases srcItem with
        | value v' => cases hunder
        | table src =>
          obtain rfl := Except.ok.inj hunder
          exact table_kept hdst hobsolete hrest
        | arrayOfTables tables => cases hunder

/-- An upgrade keeps what the user has except below the second keys of the default config, and a second upgrade changes nothing. -/
theorem upgrade_keepsUnreplaced (default : DefaultConfig) (user merged : Table) (h : mergeTomlConfigs default.entries user = .ok merged) :
    KeepsUnreplaced default user merged where
  kept _ hobsolete huser := mergeTomlConfigs_kept h hobsolete huser
  again := mergeTomlConfigs_again h

/-- A script for an image of the default config, which has none there. -/
def setupConfig : Table := [("images", .table [("alpine-latest", .table [("setup_script", text "apk add borgbackup")])])]

theorem upgrade_keepsUnreplaced_setup :
    ∃ merged, mergeTomlConfigs defaultConfig.entries setupConfig = .ok merged ∧ KeepsUnreplaced defaultConfig setupConfig merged :=
  ⟨_, rfl, upgrade_keepsUnreplaced defaultConfig setupConfig _ rfl⟩

/-- The path of the script is lost. -/
theorem keepsPaths_false :
    ¬ ∀ user merged, mergeTomlConfigs defaultConfig.entries user = .ok merged → KeepsPaths defaultConfig user merged := by
  intro h
  have hobsolete : ¬ Obsolete [.key "images", .key "alpine-latest", .key "setup_script"] := by
    intro hobsolete
    cases hobsolete with
    | top hmem _ => exact absurd hmem (by decide)
    | nested hmem _ => exact absurd hmem (by decide)
  have hkept := (h setupConfig _ rfl).kept _ hobsolete (by decide)
  exact absurd hkept (by decide)

end ConfigUpgrade

end Anylinuxfs
