import Mathlib.Data.List.Nodup
import Mathlib.Data.Set.List
import Anylinuxfs.Lemmas.DirTrie
import Anylinuxfs.Lemmas.NfsShare
import Anylinuxfs.Lemmas.Utf8
import Anylinuxfs.NestedMounts

/-!
# Lemmas about nested mounts

What a run over a trie does is read from its entries: it mounts each of them once, those above first. A run that unmounts them,
read backwards, is one that mounts them. The paths below a base keep their names under it when the text of the base is normalised.
-/

namespace Anylinuxfs

open Interact (Interleave)

namespace DirTrie

mutual

/-- A trie has one entry at a node. -/
theorem nodup_keys : ∀ {t : DirTrie}, t.Distinct → (t.entries.map Prod.fst).Nodup
  | .node own children, h => by
    have hbelow := nodup_keysOf h
    rw [entries, List.map_append, List.nodup_append]
    refine ⟨?_, hbelow, ?_⟩
    · cases own with
      | none => exact List.nodup_nil
      | some paths => exact List.nodup_singleton _
    · intro key hown key' hkey' heq
      obtain ⟨e, hmem, rfl⟩ := List.mem_map.1 hkey'
      obtain ⟨name, rest, hcons, -⟩ := name_of_mem_entriesOf hmem
      cases own with
      | none => cases hown
      | some paths =>
        rw [List.mem_singleton.1 hown, hcons] at heq
        cases heq

theorem nodup_keysOf : ∀ {children : List (Bytes × DirTrie)}, DistinctOf children → ((entriesOf children).map Prod.fst).Nodup
  | [], _ => List.nodup_nil
  | (name, child) :: rest, ⟨hname, hchild, hrest⟩ => by
    rw [entriesOf, List.map_append, List.map_map, List.nodup_append]
    refine ⟨?_, nodup_keysOf hrest, ?_⟩
    · have hkeys : child.entries.map (Prod.fst ∘ fun e => (name :: e.1, e.2)) = (child.entries.map Prod.fst).map (name :: ·) := by
        rw [List.map_map]
        rfl
      rw [hkeys]
      exact (nodup_keys hchild).map (List.cons_injective)
    · intro key hkey key' hkey' heq
      obtain ⟨e, -, rfl⟩ := List.mem_map.1 hkey
      obtain ⟨e', hmem, rfl⟩ := List.mem_map.1 hkey'
      obtain ⟨n, tail, hcons, hn⟩ := name_of_mem_entriesOf hmem
      rw [hcons] at heq
      cases heq
      exact hname hn

end

/-! ## Runs over a trie -/

section

variable {command : Bytes × Bytes → List Bytes} {succeeds spawns : List Bytes → Bool} {own : Option (Bytes × Bytes)}
  {children rest : List (Bytes × DirTrie)} {name : Bytes} {child : DirTrie} {trace : List (List Bytes)}

theorem mountRun_node : (DirTrie.node own children).MountRun command succeeds trace true ↔ (∀ paths ∈ own, succeeds (command paths) = true) ∧
    ∃ rest, trace = own.toList.map command ++ rest ∧ MountEach command succeeds false children rest true := by
  cases own with
  | none => simp [MountRun]
  | some paths =>
    rw [MountRun]
    split
    case isTrue h => simp [h]
    case isFalse h => simp [h]

theorem mountEach_cons : MountEach command succeeds false ((name, child) :: rest) trace true ↔
    ∃ trace₁ trace₂, child.MountRun command succeeds trace₁ true ∧ MountEach command succeeds false rest trace₂ true ∧
      Interleave trace₁ trace₂ trace := by
  rw [MountEach]
  constructor
  · rintro (⟨trace₁, trace₂, ok₁, ok₂, h₁, h₂, hi, hok⟩ | ⟨hfalse, -⟩)
    · obtain ⟨rfl, rfl⟩ := Bool.and_eq_true_iff.1 hok.symm
      exact ⟨trace₁, trace₂, h₁, h₂, hi⟩
    · cases hfalse
  · rintro ⟨trace₁, trace₂, h₁, h₂, hi⟩
    exact .inl ⟨trace₁, trace₂, true, true, h₁, h₂, hi, rfl⟩

theorem unmountRun_node : (DirTrie.node own children).UnmountRun command spawns trace true ↔
    (∀ paths ∈ own, spawns (command paths) = true) ∧
      ∃ trace', trace = trace' ++ own.toList.map command ∧ UnmountEach command spawns false children trace' true := by
  rw [UnmountRun]
  constructor
  · rintro ⟨trace', ok', heach, hend⟩
    cases ok' with
    | false => cases hend.2
    | true =>
      refine ⟨?_, trace', hend.1, heach⟩
      have hall := hend.2.symm
      cases own with
      | none => nofun
      | some paths => simpa using hall
  · rintro ⟨hspawns, trace', htrace, heach⟩
    refine ⟨trace', true, heach, htrace, ?_⟩
    cases own with
    | none => rfl
    | some paths => simpa using hspawns

theorem unmountEach_cons : UnmountEach command spawns false ((name, child) :: rest) trace true ↔
    ∃ trace₁ trace₂, child.UnmountRun command spawns trace₁ true ∧ UnmountEach command spawns false rest trace₂ true ∧
      Interleave trace₁ trace₂ trace := by
  rw [UnmountEach]
  constructor
  · rintro (⟨trace₁, trace₂, ok₁, ok₂, h₁, h₂, hi, hok⟩ | ⟨hfalse, -⟩)
    · obtain ⟨rfl, rfl⟩ := Bool.and_eq_true_iff.1 hok.symm
      exact ⟨trace₁, trace₂, h₁, h₂, hi⟩
    · cases hfalse
  · rintro ⟨trace₁, trace₂, h₁, h₂, hi⟩
    exact .inl ⟨trace₁, trace₂, true, true, h₁, h₂, hi, rfl⟩

end

section

variable {command : Bytes × Bytes → List Bytes} {succeeds spawns : List Bytes → Bool}

mutual

/-- If every command succeeds, the call returns `Ok`. -/
theorem MountRun.ok (hall : ∀ c, succeeds c = true) : ∀ {t : DirTrie} {trace : List (List Bytes)} {ok : Bool},
    t.MountRun command succeeds trace ok → ok = true
  | .node none children, trace, ok, h => mountEach_ok hall h
  | .node (some paths) children, trace, ok, h => by
    rw [MountRun, if_pos (hall (command paths))] at h
    obtain ⟨rest, -, h⟩ := h
    exact mountEach_ok hall h

theorem mountEach_ok (hall : ∀ c, succeeds c = true) : ∀ {stopped : Bool} {children : List (Bytes × DirTrie)}
    {trace : List (List Bytes)} {ok : Bool}, MountEach command succeeds stopped children trace ok → ok = true
  | _, [], _, _, h => h.2
  | stopped, (_, child) :: rest, trace, ok, h => by
    rw [MountEach] at h
    rcases h with ⟨trace₁, trace₂, ok₁, ok₂, h₁, h₂, -, rfl⟩ | ⟨-, h⟩
    · rw [h₁.ok hall, mountEach_ok hall h₂]
      rfl
    · exact mountEach_ok hall h

end

mutual

/-- One child after the other is a run. -/
theorem mountRun_mounts (hall : ∀ c, succeeds c = true) : ∀ t : DirTrie, t.MountRun command succeeds (t.mounts.map command) true
  | .node _ children => mountRun_node.2
      ⟨fun paths _ => hall (command paths), (mountsOf children).map command, List.map_append, mountEach_mountsOf hall children⟩

theorem mountEach_mountsOf (hall : ∀ c, succeeds c = true) :
    ∀ children : List (Bytes × DirTrie), MountEach command succeeds false children ((mountsOf children).map command) true
  | [] => ⟨rfl, rfl⟩
  | (_, child) :: rest => mountEach_cons.2
      ⟨child.mounts.map command, (mountsOf rest).map command, mountRun_mounts hall child, mountEach_mountsOf hall rest, by
        rw [mountsOf, List.map_append]
        exact .append _ _⟩

end

mutual

/-- A run mounts what the trie has, each of them once. -/
theorem MountRun.perm : ∀ {t : DirTrie} {trace : List (List Bytes)}, t.MountRun command succeeds trace true →
    trace.Perm (t.mounts.map command)
  | .node own children, trace, h => by
    obtain ⟨-, rest, rfl, heach⟩ := mountRun_node.1 h
    rw [mounts, List.map_append]
    exact (mountEach_perm heach).append_left _

theorem mountEach_perm : ∀ {children : List (Bytes × DirTrie)} {trace : List (List Bytes)},
    MountEach command succeeds false children trace true → trace.Perm ((mountsOf children).map command)
  | [], _, h => by
    rw [h.1]
    exact .refl _
  | (_, child) :: rest, trace, h => by
    obtain ⟨trace₁, trace₂, h₁, h₂, hi⟩ := mountEach_cons.1 h
    rw [mountsOf, List.map_append]
    exact hi.perm.trans (h₁.perm.append (mountEach_perm h₂))

end

mutual

/-- A run mounts what is at a node before what is below it. -/
theorem MountRun.order : ∀ {k₁ k₂ : List Bytes} {e₁ e₂ : Bytes × Bytes} {t : DirTrie} {trace : List (List Bytes)},
    t.MountRun command succeeds trace true → k₁ <+: k₂ → k₁ ≠ k₂ → t.Distinct → (k₁, e₁) ∈ t.entries → (k₂, e₂) ∈ t.entries →
      [command e₁, command e₂].Sublist trace
  | k₁, k₂, e₁, e₂, .node own children, trace, h, hk, hne, hd, h₁, h₂ => by
    obtain ⟨-, rest, rfl, heach⟩ := mountRun_node.1 h
    have hbelow : (k₂, e₂) ∈ entriesOf children := by
      refine (mem_entries_node.1 h₂).resolve_left ?_
      rintro ⟨rfl, -⟩
      exact hne (List.prefix_nil.1 hk)
    rcases mem_entries_node.1 h₁ with ⟨-, rfl⟩ | hbelow₁
    · -- the node itself comes first
      have hmem : e₂ ∈ mountsOf children := mountsOf_eq children ▸ List.mem_map_of_mem hbelow
      exact (List.singleton_sublist.2 ((mountEach_perm heach).mem_iff.2 (List.mem_map_of_mem hmem))).cons_cons _
    · exact (mountEach_order heach hk hne hd hbelow₁ hbelow).trans (List.sublist_append_right _ _)

theorem mountEach_order : ∀ {k₁ k₂ : List Bytes} {e₁ e₂ : Bytes × Bytes} {children : List (Bytes × DirTrie)}
    {trace : List (List Bytes)}, MountEach command succeeds false children trace true → k₁ <+: k₂ → k₁ ≠ k₂ →
      DistinctOf children → (k₁, e₁) ∈ entriesOf children → (k₂, e₂) ∈ entriesOf children →
        [command e₁, command e₂].Sublist trace
  | _, _, _, _, [], _, _, _, _, _, h₁, _ => by cases h₁
  | k₁, k₂, e₁, e₂, (name, child) :: rest, trace, h, hk, hne, hd, h₁, h₂ => by
    obtain ⟨trace₁, trace₂, hrun, heach, hi⟩ := mountEach_cons.1 h
    obtain ⟨hname, hchild, hrest⟩ := hd
    obtain ⟨head, tail₁, rfl, -⟩ := name_of_mem_entriesOf h₁
    obtain ⟨head₂, tail₂, rfl, -⟩ := name_of_mem_entriesOf h₂
    obtain ⟨rfl, htail⟩ := List.cons_prefix_cons.1 hk
    have hother : ∀ {tail e}, (head :: tail, e) ∈ entriesOf rest → head ≠ name := by
      rintro tail e hmem rfl
      obtain ⟨n, r, heq, hn⟩ := name_of_mem_entriesOf hmem
      cases heq
      exact hname hn
    rcases mem_entriesOf_cons.1 h₁ with ⟨heq, hmem₁⟩ | hmem₁
    · -- both lie below this child
      have hmem₂ : (tail₂, e₂) ∈ child.entries := ((mem_entriesOf_cons.1 h₂).resolve_right fun hmem => hother hmem heq).2
      have hne' : tail₁ ≠ tail₂ := by
        rintro rfl
        exact hne rfl
      exact (hrun.order htail hne' hchild hmem₁ hmem₂).trans hi.sublist_left
    · have hmem₂ := (mem_entriesOf_cons.1 h₂).resolve_left fun hmem => hother hmem₁ hmem.1
      exact (mountEach_order heach hk hne hrest hmem₁ hmem₂).trans hi.sublist_right

end

mutual

/-- A run that unmounts, read backwards, is one that mounts. -/
theorem UnmountRun.reverse : ∀ {t : DirTrie} {trace : List (List Bytes)}, t.UnmountRun command spawns trace true →
    t.MountRun command spawns trace.reverse true
  | .node own children, trace, h => by
    obtain ⟨hspawns, trace', rfl, heach⟩ := unmountRun_node.1 h
    refine mountRun_node.2 ⟨hspawns, trace'.reverse, ?_, unmountEach_reverse heach⟩
    rw [List.reverse_append]
    cases own with
    | none => rfl
    | some paths => rfl

theorem unmountEach_reverse : ∀ {children : List (Bytes × DirTrie)} {trace : List (List Bytes)},
    UnmountEach command spawns false children trace true → MountEach command spawns false children trace.reverse true
  | [], _, h => by
    rw [h.1]
    exact ⟨rfl, rfl⟩
  | (_, child) :: rest, trace, h => by
    obtain ⟨trace₁, trace₂, h₁, h₂, hi⟩ := unmountEach_cons.1 h
    exact mountEach_cons.2 ⟨trace₁.reverse, trace₂.reverse, h₁.reverse, unmountEach_reverse h₂, hi.reverse⟩

end

mutual

/-- If every command can be run, the call returns `Ok`. -/
theorem UnmountRun.ok (hall : ∀ c, spawns c = true) : ∀ {t : DirTrie} {trace : List (List Bytes)} {ok : Bool},
    t.UnmountRun command spawns trace ok → ok = true
  | .node own children, trace, ok, h => by
    obtain ⟨trace', ok', heach, hend⟩ := h
    rw [unmountEach_ok hall heach] at hend
    rw [hend.2]
    cases own with
    | none => rfl
    | some paths => exact hall (command paths)

theorem unmountEach_ok (hall : ∀ c, spawns c = true) : ∀ {stopped : Bool} {children : List (Bytes × DirTrie)}
    {trace : List (List Bytes)} {ok : Bool}, UnmountEach command spawns stopped children trace ok → ok = true
  | _, [], _, _, h => h.2
  | stopped, (_, child) :: rest, trace, ok, h => by
    rw [UnmountEach] at h
    rcases h with ⟨trace₁, trace₂, ok₁, ok₂, h₁, h₂, -, rfl⟩ | ⟨-, h⟩
    · rw [h₁.ok hall, unmountEach_ok hall h₂]
      rfl
    · exact unmountEach_ok hall h

end

mutual

/-- There is a run that unmounts. -/
theorem exists_unmountRun (hall : ∀ c, spawns c = true) : ∀ t : DirTrie, ∃ trace, t.UnmountRun command spawns trace true
  | .node own children => by
    obtain ⟨trace, heach⟩ := exists_unmountEach hall children
    exact ⟨trace ++ own.toList.map command, unmountRun_node.2 ⟨fun paths _ => hall (command paths), trace, rfl, heach⟩⟩

theorem exists_unmountEach (hall : ∀ c, spawns c = true) :
    ∀ children : List (Bytes × DirTrie), ∃ trace, UnmountEach command spawns false children trace true
  | [] => ⟨[], rfl, rfl⟩
  | (_, child) :: rest => by
    obtain ⟨trace₁, h₁⟩ := exists_unmountRun hall child
    obtain ⟨trace₂, h₂⟩ := exists_unmountEach hall rest
    exact ⟨trace₁ ++ trace₂, unmountEach_cons.2 ⟨trace₁, trace₂, h₁, h₂, .append _ _⟩⟩

end

end

end DirTrie

/-! ## Paths -/

section

variable {absolute : Bool} {names dir below : List DirName} {base path rest : Bytes}

/-- The text of a path is split at its separators into its names. -/
theorem splitOn_pathText (h : names ≠ []) :
    (pathText absolute names).splitOn slash = (if absolute then [[]] else []) ++ names.map DirName.bytes := by
  have hsplit : ([slash].intercalate (names.map DirName.bytes)).splitOn slash = names.map DirName.bytes := by
    refine List.splitOn_intercalate slash ?_ (by simpa using h)
    intro l hl
    obtain ⟨name, -, rfl⟩ := List.mem_map.1 hl
    exact name.valid.2.1
  cases absolute with
  | false => exact hsplit
  | true =>
    change ([] ++ slash :: [slash].intercalate (names.map DirName.bytes)).splitOn slash = _
    rw [List.splitOn_append_cons_self, hsplit]
    rfl

theorem filter_names : (names.map DirName.bytes).filter (fun c => c ≠ [] ∧ c ≠ bytes ".") = names.map DirName.bytes := by
  rw [List.filter_eq_self]
  intro c hc
  obtain ⟨name, -, rfl⟩ := List.mem_map.1 hc
  exact decide_eq_true ⟨name.valid.1, name.valid.2.2.1⟩

/-- A normalised path denotes its names. -/
theorem denotes_pathText : Denotes (pathText absolute names) absolute names := by
  cases names with
  | nil =>
    cases absolute with
    | false => rfl
    | true => rfl
  | cons name names =>
    have hsplit : (pathText absolute (name :: names)).splitOn slash = _ := splitOn_pathText (List.cons_ne_nil name names)
    unfold Denotes components
    cases absolute with
    | false =>
      have hhead : (pathText false (name :: names)).head? ≠ some slash := by
        change ([slash].intercalate (name.bytes :: names.map DirName.bytes)).head? ≠ some slash
        rw [FieldLines.head?_intercalate name.valid.1]
        intro h
        exact name.valid.2.1 (List.mem_of_mem_head? h)
      rw [hsplit]
      change (if _ then _ else if name.bytes = [] then [] else [name.bytes]) ++ (names.map DirName.bytes).filter _ = _
      rw [if_neg hhead, if_neg name.valid.1, filter_names]
      rfl
    | true =>
      rw [hsplit]
      change _ ++ ((name :: names).map DirName.bytes).filter _ = _
      rw [filter_names, if_pos rfl]
      rfl

theorem bytes_injective : Function.Injective DirName.bytes := by
  rintro ⟨a, ha⟩ ⟨b, hb⟩ rfl
  rfl

theorem Denotes.unique {names' : List DirName} (h : Denotes path absolute names) (h' : Denotes path absolute names') :
    names = names' := by
  have hmap := List.append_cancel_left (h.symm.trans h')
  exact bytes_injective.list_map hmap

theorem pathText_injective (h : pathText absolute names = pathText absolute dir) : names = dir :=
  denotes_pathText.unique (by rw [h]; exact denotes_pathText)

/-- A path below another one, which has a name of its own. -/
theorem pathText_append (hdir : dir ≠ []) (hbelow : below ≠ []) :
    pathText absolute (dir ++ below) = pathText absolute dir ++ slash :: pathText false below := by
  have hmap : ([slash].intercalate ((dir ++ below).map DirName.bytes) : Bytes) =
      [slash].intercalate (dir.map DirName.bytes) ++ slash :: [slash].intercalate (below.map DirName.bytes) := by
    rw [List.map_append, FieldLines.intercalate_append (by simpa using hdir) (by simpa using hbelow)]
    rfl
  unfold pathText
  rw [hmap, List.append_assoc]
  rfl

/-- A path that continues another one behind a separator: that one is normalised, and has a name. -/
theorem eq_of_append (hbase : Denotes base absolute dir) (hnames : names ≠ [])
    (h : pathText absolute names = base ++ slash :: rest) : base = pathText absolute dir ∧ dir ≠ [] := by
  suffices hdir : ∃ upper : List DirName, base = pathText absolute upper ∧ upper ≠ [] by
    obtain ⟨upper, htext, hne⟩ := hdir
    obtain rfl : dir = upper := hbase.unique (by rw [htext]; exact denotes_pathText)
    exact ⟨htext, hne⟩
  have hsplit : (pathText absolute names).splitOn slash = _ := splitOn_pathText hnames
  rw [h, List.splitOn_append_cons_self] at hsplit
  have hpieces : ∀ {pieces : List Bytes} {rest : List Bytes}, pieces ++ rest = names.map DirName.bytes →
      ∃ upper : List DirName, pieces = upper.map DirName.bytes := by
    intro pieces rest heq
    exact ⟨names.take pieces.length, by rw [List.map_take, ← heq, List.take_left]⟩
  have hjoin : [slash].intercalate (base.splitOn slash) = base := List.intercalate_splitOn slash
  cases absolute with
  | false =>
    obtain ⟨upper, hupper⟩ := hpieces hsplit
    refine ⟨upper, by rw [← hjoin, hupper]; rfl, ?_⟩
    rintro rfl
    exact List.splitOn_ne_nil slash base hupper
  | true =>
    obtain ⟨piece, pieces, hcons⟩ := List.exists_cons_of_ne_nil (List.splitOn_ne_nil slash base)
    rw [hcons] at hsplit hjoin
    obtain ⟨rfl, htail⟩ := List.cons_eq_cons.1 hsplit
    obtain ⟨upper, rfl⟩ := hpieces htail
    have hne : upper ≠ [] := by
      rintro rfl
      rw [← hjoin] at hbase
      cases hbase
    refine ⟨upper, ?_, hne⟩
    rw [← hjoin, List.intercalate_cons_of_ne_nil (by simpa using hne)]
    rfl

/-! ### The path under the share -/

theorem subdirRelative_append : subdirRelative base (base ++ slash :: rest) = rest := by
  unfold subdirRelative
  rw [if_pos (List.isPrefixOf_iff_prefix.2 (List.prefix_append _ _)), List.drop_left]
  exact if_pos rfl

theorem subdirRelative_eq_nil (h : ∀ rest, path ≠ base ++ slash :: rest) : subdirRelative base path = [] := by
  unfold subdirRelative
  split
  case isFalse => rfl
  case isTrue hprefix =>
    obtain ⟨tail, rfl⟩ := List.isPrefixOf_iff_prefix.1 hprefix
    rw [List.drop_left]
    cases tail with
    | nil => rfl
    | cons c tail =>
      refine if_neg ?_
      rintro rfl
      exact h tail rfl

theorem subdirRelative_self : subdirRelative base base = [] := by
  refine subdirRelative_eq_nil fun rest heq => ?_
  have hlen := congrArg List.length heq
  simp at hlen

/-- A path keeps its names below the base if the text of the base is normalised and has a name; otherwise none is left. -/
theorem subdirRelative_below (hbase : Denotes base absolute dir) (hbelow : below ≠ []) :
    subdirRelative base (pathText absolute (dir ++ below)) =
      if base = pathText absolute dir ∧ dir ≠ [] then pathText false below else [] := by
  split
  case isTrue h =>
    rw [pathText_append h.2 hbelow, ← h.1, subdirRelative_append]
  case isFalse h =>
    exact subdirRelative_eq_nil fun rest heq => h (eq_of_append hbase (List.append_ne_nil_of_right_ne_nil dir hbelow) heq)

/-! ### The path under a mount point -/

theorem underMountPoint_eq_true : underMountPoint base path = true ↔ path = base ∨ ∃ rest, path = base ++ slash :: rest := by
  rw [underMountPoint, Bool.or_eq_true, Bool.and_eq_true, decide_eq_true_eq, decide_eq_true_eq, List.isPrefixOf_iff_prefix]
  refine or_congr_right ?_
  constructor
  · rintro ⟨⟨tail, rfl⟩, hslash⟩
    rw [List.getElem?_append_right (Nat.le_refl _), Nat.sub_self] at hslash
    cases tail with
    | nil => cases hslash
    | cons c tail =>
      cases hslash
      exact ⟨tail, rfl⟩
  · rintro ⟨rest, rfl⟩
    exact ⟨List.prefix_append _ _, by simp⟩

/-- What lies under a mount point has the same path there as an export has under the share. -/
theorem unmountRelative_of_under (h : underMountPoint base path = true) :
    unmountRelative base path = some (subdirRelative base path) := by
  rcases underMountPoint_eq_true.1 h with rfl | ⟨rest, rfl⟩
  · rw [unmountRelative, if_pos rfl, subdirRelative_self]
  · have hne : base ++ slash :: rest ≠ base := by
      intro heq
      have hlen := congrArg List.length heq
      simp at hlen
    rw [unmountRelative, if_neg hne, if_pos (List.isPrefixOf_iff_prefix.2 (List.prefix_append _ _)), List.drop_left,
      subdirRelative_append]
    exact if_pos rfl

/-- The filter finds the mount point and what lies below it, if it is not the root. -/
theorem underMountPoint_iff (hdir : dir ≠ []) : underMountPoint (pathText true dir) (pathText true names) = true ↔ dir <+: names := by
  rw [underMountPoint_eq_true]
  constructor
  · rintro (heq | ⟨rest, heq⟩)
    · obtain rfl := pathText_injective heq
      exact List.prefix_refl _
    · have hnames : names ≠ [] := by
        rintro rfl
        have hlen := congrArg List.length heq
        simp [pathText] at hlen
      have hsplit : (pathText true names).splitOn slash = [] :: names.map DirName.bytes := splitOn_pathText hnames
      have hupper : (pathText true dir).splitOn slash = [] :: dir.map DirName.bytes := splitOn_pathText hdir
      rw [heq, List.splitOn_append_cons_self, hupper, List.cons_append] at hsplit
      have htake : dir.map DirName.bytes = (names.take (dir.map DirName.bytes).length).map DirName.bytes := by
        rw [List.map_take, ← (List.cons_eq_cons.1 hsplit).2, List.take_left]
      rw [bytes_injective.list_map htake]
      exact List.take_prefix _ _
  · rintro ⟨below, rfl⟩
    by_cases hbelow : below = []
    · rw [hbelow, List.append_nil]
      exact .inl rfl
    · exact .inr ⟨_, pathText_append hdir hbelow⟩

end

/-! ## The trie of the exports -/

section

variable {base : Bytes} {subdirs : List Bytes} {command : Bytes × Bytes → List Bytes} {succeeds : List Bytes → Bool}
  {trace : List (List Bytes)}

/-- The components of an export below a base. -/
def exportKey (base subdir : Bytes) : List Bytes := components (subdirRelative base subdir)

theorem mounted_iff (hkeys : (subdirs.map (exportKey base)).Nodup) {subdir : Bytes} :
    Mounted base subdirs subdir ↔ subdir ∈ subdirs :=
  ⟨Mounted.mem, fun hmem => exists_mounted hmem fun _ hother heq => List.inj_on_of_nodup_map hkeys hother hmem heq⟩

/-- Exports with different components are all in the trie. -/
theorem mounts_perm (hkeys : (subdirs.map (exportKey base)).Nodup) :
    (subdirTrie base subdirs).mounts.Perm (subdirs.map fun subdir => (subdirRelative base subdir, subdir)) := by
  have hentries : (subdirTrie base subdirs).entries.Perm
      (subdirs.map fun subdir => (exportKey base subdir, subdirRelative base subdir, subdir)) := by
    have hnodup : (subdirs.map fun subdir => (exportKey base subdir, subdirRelative base subdir, subdir)).Nodup := by
      refine List.Nodup.of_map Prod.fst ?_
      rw [List.map_map]
      exact hkeys
    rw [List.perm_ext_iff_of_nodup (DirTrie.nodup_keys (distinct_subdirTrie base subdirs)).of_map hnodup]
    rintro ⟨k, e⟩
    rw [mem_entries_subdirTrie, List.mem_map]
    constructor
    · rintro ⟨subdir, hmounted, rfl, rfl⟩
      exact ⟨subdir, (mounted_iff hkeys).1 hmounted, rfl⟩
    · rintro ⟨subdir, hmem, heq⟩
      cases heq
      exact ⟨subdir, (mounted_iff hkeys).2 hmem, rfl, rfl⟩
  rw [DirTrie.mounts_eq]
  refine (hentries.map Prod.snd).trans ?_
  rw [List.map_map]
  exact .refl _

/-- A run mounts each of them once. -/
theorem perm_of_run (hkeys : (subdirs.map (exportKey base)).Nodup)
    (h : (subdirTrie base subdirs).MountRun command succeeds trace true) :
    trace.Perm (subdirs.map fun subdir => command (subdirRelative base subdir, subdir)) := by
  refine (h.perm.trans ((mounts_perm hkeys).map command)).trans ?_
  rw [List.map_map]
  exact .refl _

/-- A run mounts an export after one whose components are the beginning of its own. -/
theorem order_of_run (hkeys : (subdirs.map (exportKey base)).Nodup)
    (h : (subdirTrie base subdirs).MountRun command succeeds trace true) {a b : Bytes} (ha : a ∈ subdirs) (hb : b ∈ subdirs)
    (hbegin : exportKey base a <+: exportKey base b) (hne : exportKey base a ≠ exportKey base b) :
    [command (subdirRelative base a, a), command (subdirRelative base b, b)].Sublist trace := by
  have hentry : ∀ {subdir}, subdir ∈ subdirs →
      (exportKey base subdir, subdirRelative base subdir, subdir) ∈ (subdirTrie base subdirs).entries := fun hmem =>
    (mem_entries_subdirTrie _ _ _ _).2 ⟨_, (mounted_iff hkeys).2 hmem, rfl, rfl⟩
  exact h.order hbegin hne (distinct_subdirTrie base subdirs) (hentry ha) (hentry hb)

/-- Exports without components are all at the root of the trie, which has room for one. -/
theorem length_le_one_of_run (hkeys : ∀ subdir ∈ subdirs, exportKey base subdir = [])
    (h : (subdirTrie base subdirs).MountRun command succeeds trace true) : trace.length ≤ 1 := by
  have hnodup := DirTrie.nodup_keys (distinct_subdirTrie base subdirs)
  have hall : ∀ k ∈ (subdirTrie base subdirs).entries.map Prod.fst, k = [] := by
    intro k hk
    obtain ⟨⟨k, e⟩, hmem, rfl⟩ := List.mem_map.1 hk
    obtain ⟨subdir, ⟨earlier, later, heq, -⟩, -, hkey⟩ := (mem_entries_subdirTrie _ _ _ _).1 hmem
    rw [hkey]
    exact hkeys subdir (heq ▸ List.mem_append_right _ List.mem_cons_self)
  rw [List.eq_replicate_of_mem hall, List.nodup_replicate, List.length_map] at hnodup
  rw [h.perm.length_eq, List.length_map, DirTrie.mounts_eq, List.length_map]
  exact hnodup

end

/-! ## What the shell reads -/

section

open Shell

variable {command script : Bytes} {ws : List Bytes} {elevate : Bool} {os : HostOs} {display : Bytes → List Char} {path : Bytes}

/-- The script is the last argument. -/
theorem shellReads_iff : ShellReads (shellCommand elevate script) ws ↔ words script = some ws := by
  constructor
  · rintro ⟨elevate', script', heq, hwords⟩
    have hlast := congrArg List.getLast? heq
    rw [shellCommand, shellCommand, List.getLast?_append_of_ne_nil _ (List.cons_ne_nil _ _),
      List.getLast?_append_of_ne_nil _ (List.cons_ne_nil _ _)] at hlast
    obtain rfl : script = script' := Option.some.inj hlast
    exact hwords
  · exact fun hwords => ⟨elevate, script, rfl, hwords⟩

/-- The words of a text are texts. -/
theorem utf8_of_words {s : List Char} (h : words (utf8 s) = some ws) : ∀ w ∈ ws, ∃ t, w = utf8 t := by
  obtain ⟨read, hread, -, rfl⟩ := wordsWith_eq_some_iff.1 h
  have hchar : ∀ u, u ∈ Set.range String.utf8EncodeChar → (∃ b, u = [b]) ∨ ∀ b ∈ u, 0x80 ≤ b := by
    rintro u ⟨c, rfl⟩
    by_cases hc : c.toNat < 0x80
    · exact .inl ⟨_, utf8EncodeChar_of_ascii hc⟩
    · exact .inr fun b hb => UInt8.le_iff_toNat_le.2 (le_of_mem_utf8EncodeChar hc hb)
  have hmade : ∀ s : List Char, Made (· ∈ Set.range String.utf8EncodeChar) (utf8 s) := by
    intro s
    refine ⟨s.map String.utf8EncodeChar, ?_, List.flatMap_def⟩
    intro u hu
    obtain ⟨c, -, rfl⟩ := List.mem_map.1 hu
    exact Set.mem_range_self c
  have hstart : Made (· ∈ Set.range String.utf8EncodeChar) (text ((none : Option Word).getD [])) := hmade []
  intro t ht
  obtain ⟨w, hw, rfl⟩ := List.mem_map.1 ht
  obtain ⟨us, hus, htext⟩ := wordsFrom_made hchar (.inl trivial : Mode.plain.InWord ∨ _) hstart (hmade s) hread w hw
  have hrange : us ∈ Set.range (List.map String.utf8EncodeChar) := by
    rw [Set.range_list_map]
    exact hus
  obtain ⟨cs, rfl⟩ := hrange
  exact ⟨cs, htext.trans List.flatMap_def.symm⟩

/-- A mount point is unmounted by its script exactly when it is a text that means itself between double quotes. -/
theorem words_unmountScript_iff (hdisplay : ∀ s, display (utf8 s) = s) :
    words (unmountScript os display path) = some (unmountWords os path) ↔ (∃ s, path = utf8 s) ∧ Literal path := by
  have hread : ∀ b, words (unmountScript os display path) = some (unmountWords os b) ↔
      words (Byte.dquote :: (utf8 (display path) ++ [Byte.dquote])) = some [b] := by
    intro b
    have hdiskutil : Plain (bytes "diskutil") := plain_of_all (by decide) (by decide)
    have hunmount : Plain (bytes "unmount") := plain_of_all (by decide) (by decide)
    have humount : Plain (bytes "umount") := plain_of_all (by decide) (by decide)
    have h1 : bytes "diskutil unmount \"" = bytes "diskutil" ++ Byte.space :: (bytes "unmount" ++ [Byte.space, Byte.dquote]) := by
      decide
    have h2 : bytes "umount \"" = bytes "umount" ++ [Byte.space, Byte.dquote] := by decide
    have h3 : bytes "\"" = [Byte.dquote] := by decide
    cases os with
    | macos =>
      simp only [unmountScript, unmountWords, h1, h3, List.append_assoc, List.cons_append, List.nil_append]
      rw [words_plain_word hdiskutil, words_plain_word hunmount]
      simp only [Option.map_map, Option.map_eq_some_iff, Function.comp_apply, List.cons.injEq, true_and, exists_eq_right]
    | linux =>
      simp only [unmountScript, unmountWords, h2, h3, List.append_assoc, List.cons_append, List.nil_append]
      rw [words_plain_word humount]
      simp only [Option.map_eq_some_iff, List.cons.injEq, true_and, exists_eq_right]
  have hutf8 : Byte.dquote :: (utf8 (display path) ++ [Byte.dquote]) = utf8 ('"' :: (display path ++ ['"'])) := by
    rw [utf8_cons, utf8_append]
    rfl
  rw [hread]
  constructor
  · intro h
    have htext := utf8_of_words (hutf8 ▸ h) path List.mem_cons_self
    obtain ⟨s, rfl⟩ := htext
    rw [hdisplay, words_dquote_iff] at h
    exact ⟨⟨s, rfl⟩, h⟩
  · rintro ⟨⟨s, rfl⟩, hliteral⟩
    rw [hdisplay, words_dquote_iff]
    exact hliteral

end

end Anylinuxfs
