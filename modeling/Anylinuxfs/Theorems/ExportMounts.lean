import Anylinuxfs.ExportMounts
import Anylinuxfs.Lemmas.NestedMounts
import Anylinuxfs.Lemmas.Vmproxy
import Anylinuxfs.Preferences

/-!
# No export is dropped

The host mounts all exports at directories of their own below the main mount point exactly when the guest exports nothing that
lies elsewhere than below the share path, by its text, and no directory twice, and the shell reads each path as it is.
-/

namespace Anylinuxfs

open Interact (Prog)
open Shell

/-! ## The tags -/

namespace Vmproxy

variable {env : ∀ c : Call, c.Answer} {os : OsType} {dsk : DiskContext} {action : Option CustomActionConfig}
  {mountPoint path exportMode : List Char} {argsOverride : Option (List Char)}

theorem exportLine_injective : Function.Injective exportLine := by
  intro a b h
  exact List.append_cancel_left (List.append_cancel_right h)

/-- The arguments are found by looking at the file systems only. -/
theorem statfs_of_mem_trace {i : Nat} {paths : List (List Char)} {c : Call}
    (h : c ∈ (exportArgs os exportMode argsOverride i paths).trace env) : ∃ path, c = .statfs path := by
  have hone : ∀ {i p}, c ∈ (exportArgsForPath os p exportMode i argsOverride).trace env → ∃ path, c = .statfs path := by
    intro i p h
    unfold exportArgsForPath at h
    cases os with
    | freeBsd => cases h
    | linux =>
      rcases Prog.mem_trace_bind.1 h with h | ⟨r, -, h⟩
      · exact ⟨p, List.mem_singleton.1 h⟩
      · cases r with
        | none => cases h
        | some fType =>
          change _ ∈ Prog.trace env (if _ then _ else _) at h
          split at h
          · cases h
          · cases h
  induction paths generalizing i with
  | nil => cases h
  | cons p paths ih =>
    rcases Prog.mem_trace_bind.1 h with h | ⟨args, -, h⟩
    · exact hone h
    · rcases Prog.mem_trace_bind.1 h with h | ⟨others, -, h⟩
      · exact ih h
      · cases h

/-- No tag is printed while the arguments are found. -/
theorem not_emits_exportArgs {i : Nat} {paths : List (List Char)} :
    ¬ Emits env (exportArgs os exportMode argsOverride i paths) path := by
  intro h
  obtain ⟨p, hp⟩ := statfs_of_mem_trace h
  cases hp

theorem emits_printExports {exports : List (List Char × List Char)} : Emits env (printExports exports) path ↔
    path ∈ exports.map Prod.fst := by
  induction exports with
  | nil => simp [Emits, printExports]
  | cons e exports ih =>
    obtain ⟨p, args⟩ := e
    have hcons : Emits env (printExports ((p, args) :: exports)) path ↔
        Vmproxy.Call.println (exportLine path) = .println (exportLine p) ∨ Emits env (printExports exports) path := List.mem_cons
    rw [hcons, ih, List.map_cons, List.mem_cons, Vmproxy.Call.println.injEq, exportLine_injective.eq_iff]

/-- No tag is printed behind the others. -/
theorem not_emits_written {file content : List Char} {text : Bytes} : ¬ Emits env (do
    orContext text (← ask (.writeExports file content))
    println ("Successfully initialized ".toList ++ file ++ ['.'])) path := by
  intro h
  rcases Prog.mem_trace_bind.1 h with h | ⟨written, -, h⟩
  · cases List.mem_singleton.1 h
  · rcases Prog.mem_trace_bind.1 h with h | ⟨_, -, h⟩
    · cases written with
      | true => cases h
      | false => cases h
    · have hhead : some '<' = some 'S' := congrArg List.head? (Vmproxy.Call.println.inj (List.mem_singleton.1 h))
      revert hhead
      decide

/-- When the exports have been written, the tags of all paths that are to be exported have been printed, and no others. -/
theorem emits_iff (hok : (buildNfsExports os dsk (exportPaths action mountPoint) exportMode argsOverride).result env = .ok ()) :
    Emits env (buildNfsExports os dsk (exportPaths action mountPoint) exportMode argsOverride) path ↔
      Exported dsk action mountPoint path := by
  obtain ⟨exports, hargs, -⟩ := Prog.result_bind_eq_ok.1 hok
  have hpaths : path ∈ exports.map Prod.fst ↔ Exported dsk action mountPoint path := by
    rw [exportArgs_paths hargs, mem_foldl_setInsert_iff, or_iff_left List.not_mem_nil, Exported]
    split
    case isTrue hzfs => simp [hzfs, List.mem_append, or_comm]
    case isFalse hzfs => simp [hzfs]
  have hprinted : Emits env (printExports exports) path ↔ Exported dsk action mountPoint path := emits_printExports.trans hpaths
  rw [← hprinted]
  constructor
  · intro h
    rcases Prog.mem_trace_bind.1 h with h | ⟨exports', hargs', h⟩
    · exact absurd h not_emits_exportArgs
    · obtain rfl := Except.ok.inj (hargs.symm.trans hargs')
      rcases Prog.mem_trace_bind.1 h with h | ⟨_, -, h⟩
      · exact h
      · exact absurd h not_emits_written
  · intro h
    exact Prog.mem_trace_bind.2 (.inr ⟨exports, hargs, Prog.mem_trace_bind.2 (.inl h)⟩)

/-- The exports are written in a guest that knows every file system. -/
theorem buildNfsExports_ok (hstatfs : ∀ p, (env (.statfs p)).isSome = true)
    (hwrite : ∀ file content, env (.writeExports file content) = true) {paths : List (List Char)} :
    (buildNfsExports os dsk paths exportMode argsOverride).result env = .ok () := by
  have hone : ∀ p i, ∃ args, (exportArgsForPath os p exportMode i argsOverride).result env = .ok args := by
    intro p i
    unfold exportArgsForPath
    cases os with
    | freeBsd => exact ⟨_, rfl⟩
    | linux =>
      obtain ⟨fType, hfType⟩ := Option.isSome_iff_exists.1 (hstatfs p)
      refine Exists.imp (fun _ hargs => Prog.result_bind_eq_ok.2 ⟨_, rfl, hargs⟩) ?_
      rw [hfType]
      dsimp only
      split
      · exact ⟨_, rfl⟩
      · exact ⟨_, rfl⟩
  have hall : ∀ paths i, ∃ exports, (exportArgs os exportMode argsOverride i paths).result env = .ok exports := by
    intro paths
    induction paths with
    | nil => exact fun _ => ⟨[], rfl⟩
    | cons p paths ih =>
      intro i
      obtain ⟨args, hargs⟩ := hone p i
      obtain ⟨others, hothers⟩ := ih (i + 1)
      exact ⟨(p, args) :: others, Prog.result_bind_eq_ok.2 ⟨args, hargs, Prog.result_bind_eq_ok.2 ⟨others, hothers, rfl⟩⟩⟩
  have hprinted : ∀ exports, (printExports exports).result env = .ok () := by
    intro exports
    induction exports with
    | nil => rfl
    | cons e exports ih => exact Prog.result_bind_eq_ok.2 ⟨(), rfl, ih⟩
  obtain ⟨exports, hexports⟩ := hall _ 0
  refine Prog.result_bind_eq_ok.2 ⟨exports, hexports, Prog.result_bind_eq_ok.2 ⟨(), hprinted exports, ?_⟩⟩
  refine Prog.result_bind_eq_ok.2 ⟨_, rfl, ?_⟩
  rw [hwrite]
  rfl

end Vmproxy

/-! ## Directories -/

section

variable {path relative : Bytes} {dir d : List Bytes} {cs : List Bytes} {names : List DirName}

theorem foldl_names : (names.map DirName.bytes).foldl stepInto d = d ++ names.map DirName.bytes := by
  induction names generalizing d with
  | nil => simp
  | cons name names ih =>
    obtain ⟨-, hslash, hdot, hdots⟩ := name.valid
    have hroot : name.bytes ≠ [slash] := by
      intro h
      rw [h] at hslash
      exact hslash List.mem_cons_self
    rw [List.map_cons, List.foldl_cons, stepInto, if_neg hroot, if_neg hdot, if_neg hdots, ih, List.append_assoc,
      List.singleton_append]

theorem components_cons_slash : components (slash :: path) = [slash] :: (path.splitOn slash).filter fun c => c ≠ [] ∧ c ≠ bytes "." := by
  have hsplit : (slash :: path).splitOn slash = [] :: path.splitOn slash := List.splitOn_append_cons_self [] path
  rw [components, hsplit]
  rfl

theorem directory_pathText : directory (pathText true names) = names.map DirName.bytes := by
  have hnames : components (pathText true names) = [slash] :: names.map DirName.bytes := denotes_pathText
  rw [directory, hnames]
  exact foldl_names.trans (List.nil_append _)

/-- A component of no effect at the beginning of a path may be left out. -/
theorem foldl_components (h : relative.head? ≠ some slash) : (components relative).foldl stepInto d =
    ((relative.splitOn slash).filter fun c => c ≠ [] ∧ c ≠ bytes ".").foldl stepInto d := by
  unfold components
  obtain ⟨piece, rest, hsplit⟩ := List.exists_cons_of_ne_nil (List.splitOn_ne_nil slash relative)
  rw [hsplit]
  change List.foldl stepInto d ((if _ then _ else if piece = [] then [] else [piece]) ++ rest.filter _) = _
  rw [if_neg h, List.filter_cons, List.foldl_append]
  by_cases hnil : piece = []
  · rw [if_pos hnil, if_neg (by simp [hnil])]
    rfl
  · by_cases hdot : piece = bytes "."
    · rw [if_neg hnil, if_neg (by simp [hdot]), hdot]
      rfl
    · rw [if_neg hnil, if_pos (decide_eq_true ⟨hnil, hdot⟩)]
      rfl

theorem getLast?_pathText (h : names ≠ []) : (pathText true names).getLast? ≠ some slash := by
  intro hlast
  have hne : pathText false names ≠ [] := by
    intro hnil
    have hsplit : (pathText false names).splitOn slash = _ := splitOn_pathText h
    rw [hnil] at hsplit
    obtain ⟨name, rest, rfl⟩ := List.exists_cons_of_ne_nil h
    exact name.valid.1 (List.cons_eq_cons.1 hsplit).1.symm
  change (slash :: pathText false names).getLast? = _ at hlast
  rw [List.getLast?_cons_of_ne_nil hne] at hlast
  have hpieces : ∀ p ∈ names.map DirName.bytes, p ≠ [] := by
    intro p hp
    obtain ⟨name, -, rfl⟩ := List.mem_map.1 hp
    exact name.valid.1
  obtain ⟨p, hp, hmem⟩ := FieldLines.getLast?_intercalate hpieces hlast
  obtain ⟨name, -, rfl⟩ := List.mem_map.1 hp
  exact name.valid.2.1 (List.mem_of_getLast? hmem)

/-- A path below a mount point leads from there to where its components lead. -/
theorem directory_pathJoin : directory (pathJoin (pathText true names) relative) =
    (components relative).foldl stepInto (names.map DirName.bytes) := by
  unfold directory pathJoin joinAt
  split
  case isTrue habsolute =>
    obtain ⟨rest, rfl⟩ : ∃ rest, relative = slash :: rest := List.head?_eq_some_iff.1 habsolute
    rw [components_cons_slash]
    rfl
  case isFalse hrelative =>
    rw [foldl_components hrelative]
    cases names with
    | nil =>
      change (components (slash :: relative)).foldl stepInto [] = _
      rw [components_cons_slash]
      rfl
    | cons name names =>
      rw [if_neg (not_or.2 ⟨nofun, getLast?_pathText (List.cons_ne_nil _ _)⟩)]
      change (components (slash :: (pathText false (name :: names) ++ slash :: relative))).foldl stepInto [] = _
      rw [components_cons_slash, List.splitOn_append_cons_self, splitOn_pathText (List.cons_ne_nil _ _), List.filter_append]
      change List.foldl stepInto [] (((name :: names).map DirName.bytes).filter _ ++ _) = _
      rw [filter_names, List.foldl_append, foldl_names, List.nil_append]

/-- Components that do not leave a directory lead to the same names below any other one. -/
theorem foldl_stepInto (h : descend d cs = some dir) (base : List Bytes) : cs.foldl stepInto (base ++ d) = base ++ dir := by
  induction cs generalizing d with
  | nil => rw [Option.some.inj h, List.foldl_nil]
  | cons c cs ih =>
    rw [descend] at h
    rw [List.foldl_cons, stepInto]
    split at h
    case isTrue => cases h
    case isFalse hroot =>
      rw [if_neg hroot]
      split at h
      case isTrue hdot =>
        rw [if_pos hdot]
        exact ih h
      case isFalse hdot =>
        rw [if_neg hdot]
        split at h
        case isTrue hdots =>
          rw [if_pos hdots]
          split at h
          case isTrue => cases h
          case isFalse hne =>
            rw [List.dropLast_append_of_ne_nil hne]
            exact ih h
        case isFalse hdots =>
          rw [if_neg hdots, List.append_assoc]
          exact ih h

theorem notMem_foldl_of_notMem {name : Bytes} (hname : name ∉ cs) (hd : name ∉ d) : name ∉ cs.foldl stepInto d := by
  induction cs generalizing d with
  | nil => exact hd
  | cons c cs ih =>
    refine ih (fun hmem => hname (List.mem_cons_of_mem c hmem)) ?_
    unfold stepInto
    split
    · exact List.not_mem_nil
    · split
      · exact hd
      · split
        · exact fun hmem => hd (List.dropLast_subset _ hmem)
        · rw [List.mem_append, List.mem_singleton, not_or]
          exact ⟨hd, fun heq => hname (heq ▸ List.mem_cons_self)⟩

/-- Components that leave a directory of a name that is not among them do not lead below it. -/
theorem notMem_foldl_stepInto {name : Bytes} (hname : name ∉ cs) (hd : name ∉ d) (h : descend d cs = none) :
    name ∉ cs.foldl stepInto (name :: d) := by
  induction cs generalizing d with
  | nil => cases h
  | cons c cs ih =>
    have hcs : name ∉ cs := fun hmem => hname (List.mem_cons_of_mem c hmem)
    rw [descend] at h
    rw [List.foldl_cons, stepInto]
    split at h
    case isTrue hroot =>
      rw [if_pos hroot]
      exact notMem_foldl_of_notMem hcs List.not_mem_nil
    case isFalse hroot =>
      rw [if_neg hroot]
      split at h
      case isTrue hdot =>
        rw [if_pos hdot]
        exact ih hcs hd h
      case isFalse hdot =>
        rw [if_neg hdot]
        split at h
        case isTrue hdots =>
          rw [if_pos hdots]
          split at h
          case isTrue hnil =>
            rw [hnil]
            exact notMem_foldl_of_notMem hcs List.not_mem_nil
          case isFalse hne =>
            obtain ⟨x, d', rfl⟩ := List.exists_cons_of_ne_nil hne
            exact ih hcs (fun hmem => hd (List.dropLast_subset _ hmem)) h
        case isFalse hdots =>
          rw [if_neg hdots]
          refine ih hcs ?_ h
          intro hmem
          rcases List.mem_append.1 hmem with hmem | hmem
          · exact hd hmem
          · exact hname (List.mem_singleton.1 hmem ▸ List.mem_cons_self)

/-- There is a name that is not among some others, in which every byte means itself. -/
theorem exists_dirName_notMem (cs : List Bytes) : ∃ name : DirName, name.bytes ∉ cs ∧ Literal (pathText true [name]) := by
  have hlong : ∃ n, ∀ c ∈ cs, c.length < n := by
    induction cs with
    | nil => exact ⟨0, nofun⟩
    | cons c cs ih =>
      obtain ⟨n, hn⟩ := ih
      refine ⟨max n (c.length + 1), ?_⟩
      intro x hx
      rcases List.mem_cons.1 hx with rfl | hx
      · exact Nat.lt_of_lt_of_le (Nat.lt_succ_self _) (Nat.le_max_right _ _)
      · exact Nat.lt_of_lt_of_le (hn x hx) (Nat.le_max_left _ _)
  obtain ⟨n, hn⟩ := hlong
  have hmem : ∀ c ∈ List.replicate (n + 3) (0x78 : UInt8), c = 0x78 := fun c hc => List.eq_of_mem_replicate hc
  refine ⟨⟨List.replicate (n + 3) 0x78, by simp, ?_, ?_, ?_⟩, ?_, ?_⟩
  · intro hslash
    exact absurd (hmem slash hslash) (by decide)
  · intro heq
    have hlen := congrArg List.length heq
    rw [List.length_replicate] at hlen
    exact absurd hlen (by change ¬ n + 3 = 1; omega)
  · intro heq
    have hlen := congrArg List.length heq
    rw [List.length_replicate] at hlen
    exact absurd hlen (by change ¬ n + 3 = 2; omega)
  · intro hcs
    have hlt := hn _ hcs
    change (List.replicate (n + 3) (0x78 : UInt8)).length < n at hlt
    rw [List.length_replicate] at hlt
    omega
  · refine literalBefore_of_ordinary (fun c hc => ?_) Byte.dquote
    rw [pathText, List.map_singleton, List.intercalate_singleton] at hc
    rcases List.mem_cons.1 hc with rfl | hc
    · decide
    · rw [hmem c hc]
      decide

end

/-! ## The mounts -/

section

variable {setup : NfsShareSetup} {exports : List (List Char)} {sharePath share : Bytes} {subdirs : List Bytes}

/-- What a path leads to below the share is what is left of it behind the share path. -/
theorem LiesAt.descend_eq {path : Bytes} {dir : List Bytes} (h : LiesAt sharePath path dir) :
    descend [] (components (subdirRelative sharePath path)) = some dir := by
  obtain ⟨relative, rfl, hdescend⟩ := h
  rw [subdirRelative_append]
  exact hdescend

theorem liesAt_of_descend {path : Bytes} {dir : List Bytes} (hne : dir ≠ [])
    (h : descend [] (components (subdirRelative sharePath path)) = some dir) : LiesAt sharePath path dir := by
  by_cases hunder : ∃ relative, path = sharePath ++ slash :: relative
  · obtain ⟨relative, rfl⟩ := hunder
    rw [subdirRelative_append] at h
    exact ⟨relative, rfl, h⟩
  · rw [subdirRelative_eq_nil fun relative heq => hunder ⟨relative, heq⟩] at h
    exact absurd (Option.some.inj h).symm hne

theorem mem_additional : share ∈ (exports.map utf8).filter (· ≠ setup.sharePath) ↔
    ∃ path ∈ exports, utf8 path = share ∧ share ≠ setup.sharePath := by
  rw [List.mem_filter, List.mem_map, decide_eq_true_eq]
  constructor
  · rintro ⟨⟨path, hmem, heq⟩, hne⟩
    exact ⟨path, hmem, heq, hne⟩
  · rintro ⟨path, hmem, heq, hne⟩
    exact ⟨⟨path, hmem, heq⟩, hne⟩

/-- What is left of a path behind the share path means itself when the path does. -/
theorem literal_subdirRelative {vmHost : Bytes} (h : Literal (remote vmHost share)) : Literal (subdirRelative sharePath share) := by
  by_cases hunder : ∃ relative, share = sharePath ++ slash :: relative
  · obtain ⟨relative, rfl⟩ := hunder
    have hsplit : remote vmHost (sharePath ++ slash :: relative) = (vmHost ++ bytes ":" ++ sharePath ++ [slash]) ++ relative := by
      simp [remote]
    rw [Literal, hsplit, literalBefore_append, Bool.and_eq_true] at h
    rw [subdirRelative_append]
    exact h.2
  · rw [subdirRelative_eq_nil fun relative heq => hunder ⟨relative, heq⟩]
    rfl

/-- A share is mounted exactly when no later one takes its place and the shell reads its path as it is, and then where its path
below the share says. -/
theorem mountsAt_iff (hopts : Plain setup.nfsOpts.toList) {mountPoint target : Bytes} (hmp : Literal mountPoint) :
    setup.MountsAt exports mountPoint share target ↔ Literal (remote setup.vmHost share) ∧
      Mounted setup.sharePath ((exports.map utf8).filter (· ≠ setup.sharePath)) share ∧
        target = pathJoin mountPoint (subdirRelative setup.sharePath share) := by
  constructor
  · rintro ⟨script, hmem, hwords⟩
    obtain ⟨⟨share', place⟩, hplace, heq⟩ := List.mem_map.1 hmem
    cases heq
    obtain ⟨hliteral, hread⟩ := (words_mountScript_iff hopts).1 hwords
    obtain ⟨hmounted, rfl⟩ := (mem_subdirMounts _ _ _ _ _).1 hplace
    have hplaceliteral : Literal (pathJoin mountPoint (subdirRelative setup.sharePath share')) :=
      literal_pathJoin hmp (literal_subdirRelative hliteral)
    have hself := (words_dquote_iff _).2 hplaceliteral
    exact ⟨hliteral, hmounted, (List.singleton_inj.1 (Option.some.inj (hself.symm.trans hread))).symm⟩
  · rintro ⟨hliteral, hmounted, rfl⟩
    refine ⟨_, List.mem_map_of_mem ((mem_subdirMounts _ _ _ _ _).2 ⟨hmounted, rfl⟩), (words_mountScript_iff hopts).2 ⟨hliteral, ?_⟩⟩
    exact (words_dquote_iff _).2 (literal_pathJoin hmp (literal_subdirRelative hliteral))

/-- Every export but the share path leads to a directory below the share, by its text, and means itself between double quotes, and
no two of them lead to the same one. -/
structure ExportsApart (setup : NfsShareSetup) (Exports : List Char → Prop) : Prop where
  lies : ∀ path, Exports path → utf8 path ≠ setup.sharePath → ∃ dir, dir ≠ [] ∧ LiesAt setup.sharePath (utf8 path) dir
  apart : ∀ path path' dir, Exports path → Exports path' → utf8 path ≠ setup.sharePath → utf8 path' ≠ setup.sharePath →
    LiesAt setup.sharePath (utf8 path) dir → LiesAt setup.sharePath (utf8 path') dir → utf8 path = utf8 path'
  literal : ∀ path, Exports path → utf8 path ≠ setup.sharePath → Literal (remote setup.vmHost (utf8 path))

/-- Exports that are kept at every mount point are apart. -/
theorem exportsApart_of_kept (hopts : Plain setup.nfsOpts.toList)
    (hkept : ∀ mountPoint : List DirName, Literal (pathText true mountPoint) → ExportsKept setup exports (pathText true mountPoint)) :
    ExportsApart setup (· ∈ exports) := by
  have hmounts : ∀ mountPoint : List DirName, Literal (pathText true mountPoint) → ∀ path ∈ exports,
      utf8 path ≠ setup.sharePath → Literal (remote setup.vmHost (utf8 path)) ∧
        setup.MountsAt exports (pathText true mountPoint) (utf8 path)
          (pathJoin (pathText true mountPoint) (subdirRelative setup.sharePath (utf8 path))) := by
    intro mountPoint hmp path hmem hne
    obtain ⟨target, htarget⟩ := (hkept mountPoint hmp).kept path hmem hne
    obtain ⟨hliteral, -, rfl⟩ := (mountsAt_iff hopts hmp).1 htarget
    exact ⟨hliteral, htarget⟩
  refine ⟨?_, ?_, fun path hmem hne => (hmounts [] rfl path hmem hne).1⟩
  · intro path hmem hne
    -- a mount point whose name is not in the path shows whether the path leaves it
    obtain ⟨name, hname, hliteral⟩ := exists_dirName_notMem (components (subdirRelative setup.sharePath (utf8 path)))
    have hbelow := (hkept [name] hliteral).below _ _ (hmounts [name] hliteral path hmem hne).2
    rw [directory_pathText, directory_pathJoin] at hbelow
    cases hdescend : descend [] (components (subdirRelative setup.sharePath (utf8 path))) with
    | none =>
      have hleft := notMem_foldl_stepInto hname List.not_mem_nil hdescend
      exact absurd (hbelow.1.subset List.mem_cons_self) hleft
    | some dir =>
      have hdir := foldl_stepInto hdescend [name.bytes]
      rw [List.append_nil] at hdir
      have hnonempty : dir ≠ [] := by
        rintro rfl
        exact hbelow.2 hdir.symm
      exact ⟨dir, hnonempty, liesAt_of_descend hnonempty hdescend⟩
  · intro path path' dir hmem hmem' hne hne' hlies hlies'
    refine (hkept [] rfl).apart _ _ _ _ (hmounts [] rfl path hmem hne).2 (hmounts [] rfl path' hmem' hne').2 ?_
    have hdir := foldl_stepInto hlies.descend_eq []
    have hdir' := foldl_stepInto hlies'.descend_eq []
    rw [directory_pathJoin, directory_pathJoin]
    exact hdir.trans hdir'.symm

/-- Exports that are apart are kept. -/
theorem exportsKept_of_apart (hopts : Plain setup.nfsOpts.toList) (h : ExportsApart setup (· ∈ exports))
    {mountPoint : List DirName} (hmp : Literal (pathText true mountPoint)) : ExportsKept setup exports (pathText true mountPoint) := by
  obtain ⟨hlies, hapart, hliteral⟩ := h
  have hlies' : ∀ share ∈ (exports.map utf8).filter (· ≠ setup.sharePath),
      ∃ dir, dir ≠ [] ∧ LiesAt setup.sharePath share dir := by
    intro share hmem
    obtain ⟨path, hpath, rfl, hne⟩ := mem_additional.1 hmem
    exact hlies path hpath hne
  have hapart' : ∀ share ∈ (exports.map utf8).filter (· ≠ setup.sharePath),
      ∀ share' ∈ (exports.map utf8).filter (· ≠ setup.sharePath), ∀ dir, LiesAt setup.sharePath share dir →
        LiesAt setup.sharePath share' dir → share = share' := by
    intro share hmem share' hmem' dir hdir hdir'
    obtain ⟨path, hpath, rfl, hne⟩ := mem_additional.1 hmem
    obtain ⟨path', hpath', rfl, hne'⟩ := mem_additional.1 hmem'
    exact hapart path path' dir hpath hpath' hne hne' hdir hdir'
  have hdirectory : ∀ {share dir}, LiesAt setup.sharePath share dir →
      directory (pathJoin (pathText true mountPoint) (subdirRelative setup.sharePath share)) =
        mountPoint.map DirName.bytes ++ dir := by
    intro share dir hdir
    have hfold := foldl_stepInto hdir.descend_eq (mountPoint.map DirName.bytes)
    rw [List.append_nil] at hfold
    rw [directory_pathJoin, hfold]
  refine ⟨?_, ?_, ?_⟩
  · intro path hmem hne
    have hshare := mem_additional.2 ⟨path, hmem, rfl, hne⟩
    refine ⟨_, (mountsAt_iff hopts hmp).2 ⟨hliteral path hmem hne, exists_mounted hshare ?_, rfl⟩⟩
    intro other hother heq
    obtain ⟨dir, hdirne, hdir⟩ := hlies' _ hother
    have hsame := hdir.descend_eq
    rw [heq] at hsame
    exact hapart' _ hother _ hshare dir hdir (liesAt_of_descend hdirne hsame)
  · intro share target hmounts
    obtain ⟨-, hmounted, rfl⟩ := (mountsAt_iff hopts hmp).1 hmounts
    obtain ⟨dir, hne, hdir⟩ := hlies' _ hmounted.mem
    rw [directory_pathText, hdirectory hdir]
    exact ⟨List.prefix_append _ _, fun heq => hne (List.self_eq_append_right.1 heq)⟩
  · intro share target share' target' hmounts hmounts' heq
    obtain ⟨-, hmounted, rfl⟩ := (mountsAt_iff hopts hmp).1 hmounts
    obtain ⟨-, hmounted', rfl⟩ := (mountsAt_iff hopts hmp).1 hmounts'
    obtain ⟨dir, -, hdir⟩ := hlies' _ hmounted.mem
    obtain ⟨dir', -, hdir'⟩ := hlies' _ hmounted'.mem
    rw [hdirectory hdir, hdirectory hdir'] at heq
    obtain rfl := List.append_cancel_left heq
    exact hapart' _ hmounted.mem _ hmounted'.mem dir hdir hdir'

/-- The mounts keep the exports at every mount point that means itself between double quotes exactly when the exports are apart. -/
theorem exportsKept_iff_apart (hopts : Plain setup.nfsOpts.toList) :
    (∀ mountPoint : List DirName, Literal (pathText true mountPoint) → ExportsKept setup exports (pathText true mountPoint)) ↔
      ExportsApart setup (· ∈ exports) :=
  ⟨exportsApart_of_kept hopts, fun h _ hmp => exportsKept_of_apart hopts h hmp⟩

end

/-- When the exports of a guest have been written, the host keeps them at every main mount point that means itself between double
quotes exactly when every path that is to be exported and is not the share path leads to a directory below the share, by its text,
and means itself there too, and no two of them lead to the same one. -/
theorem exportsKept_iff {env : ∀ c : Vmproxy.Call, c.Answer} {os : OsType} {dsk : Vmproxy.DiskContext}
    {action : Option CustomActionConfig} {guestMountPoint exportMode : List Char} {argsOverride : Option (List Char)}
    {setup : NfsShareSetup} {exports : List (List Char)} (hopts : Plain setup.nfsOpts.toList)
    (hok : (Vmproxy.buildNfsExports os dsk (Vmproxy.exportPaths action guestMountPoint) exportMode argsOverride).result env = .ok ())
    (hexports : ∀ path, path ∈ exports ↔
      Vmproxy.Emits env (Vmproxy.buildNfsExports os dsk (Vmproxy.exportPaths action guestMountPoint) exportMode argsOverride) path) :
    (∀ mountPoint : List DirName, Literal (pathText true mountPoint) → ExportsKept setup exports (pathText true mountPoint)) ↔
      ExportsApart setup (Vmproxy.Exported dsk action guestMountPoint) := by
  have hmem : (· ∈ exports) = Vmproxy.Exported dsk action guestMountPoint :=
    funext fun path => propext ((hexports path).trans (Vmproxy.emits_iff hok))
  rw [exportsKept_iff_apart hopts, hmem]

/-! ## A share with a path of its own -/

/-- An action that exports a directory of its own, with two subdirectories. -/
def srvAction : CustomActionConfig where
  overrideNfsExport := "/srv".toList
  nfsExportSubdirs := ["logs".toList, "www/data".toList]

/-- The disk of a pool. -/
def poolDisk : Vmproxy.DiskContext :=
  { Vmproxy.DiskContext.new { diskPath := "/dev/vda1".toList, mountName := "zfs_root".toList } with
    isZfs := true
    zfsMountpoints := [⟨"tank".toList, "/mnt/zfs_root/tank".toList, "tank".toList, false⟩,
      ⟨"home".toList, "/mnt/zfs_root/home".toList, "home".toList, false⟩] }

/-- The disk of a file system. -/
def plainDisk : Vmproxy.DiskContext := .new { diskPath := "/dev/vda1".toList, mountName := "data".toList }

/-- The share of the action. -/
def srvShare : NfsShareSetup :=
  .new .macos { common := { homeDir := bytes "/root", profilePath := bytes "/root/.anylinuxfs" }, action := some srvAction }
    (bytes "alfs.local") {} false

/-- `srv`, the name of the mount point. -/
def srvName : DirName := ⟨bytes "srv", by decide⟩

/-- The exports of the action. -/
def srvExports : List (List Char) := ["/srv".toList, "/srv/logs".toList, "/srv/www/data".toList]

theorem srv_ok (dsk : Vmproxy.DiskContext) : (Vmproxy.buildNfsExports .linux dsk (Vmproxy.exportPaths (some srvAction) [])
    "rw".toList none).result (Vmproxy.optionsGuest []) = .ok () :=
  Vmproxy.buildNfsExports_ok (fun _ => rfl) fun _ _ => rfl

theorem exportPaths_srv : Vmproxy.exportPaths (some srvAction) [] = srvExports := by decide

theorem liesAt_srv {path : List Char} {dir : List Bytes} (hpath : path ∈ srvExports) (hne : utf8 path ≠ srvShare.sharePath)
    (h : LiesAt srvShare.sharePath (utf8 path) dir) :
    (path = "/srv/logs".toList ∧ dir = [bytes "logs"]) ∨ (path = "/srv/www/data".toList ∧ dir = [bytes "www", bytes "data"]) := by
  have hdescend := h.descend_eq
  rcases List.mem_cons.1 hpath with rfl | hpath
  · exact absurd (by decide) hne
  · rcases List.mem_cons.1 hpath with rfl | hpath
    · exact .inl ⟨rfl, (Option.some.inj (hdescend.symm.trans (by decide)))⟩
    · obtain rfl := List.mem_singleton.1 hpath
      exact .inr ⟨rfl, (Option.some.inj (hdescend.symm.trans (by decide)))⟩

theorem plain_srv : Plain srvShare.nfsOpts.toList :=
  (inertOptions_new .macos (fun _ h => absurd h List.not_mem_nil) _ _ _).plain

theorem exportsKept_srv : ExportsKept srvShare srvExports (pathText true [srvName]) := by
  have hexported : ∀ path, Vmproxy.Exported plainDisk (some srvAction) [] path ↔ path ∈ srvExports := by
    intro path
    rw [Vmproxy.Exported, exportPaths_srv]
    exact or_iff_left (fun h => Bool.false_ne_true h.1)
  have hexports : ∀ path, path ∈ srvExports ↔ Vmproxy.Emits (Vmproxy.optionsGuest []) _ path := fun path =>
    ((Vmproxy.emits_iff (srv_ok plainDisk)).trans (hexported path)).symm
  refine (exportsKept_iff plain_srv (srv_ok plainDisk) hexports).2 ⟨?_, ?_, ?_⟩ [srvName] (by decide)
  · intro path hpath hne
    rcases List.mem_cons.1 ((hexported path).1 hpath) with rfl | hpath
    · exact absurd (by decide) hne
    · rcases List.mem_cons.1 hpath with rfl | hpath
      · exact ⟨[bytes "logs"], by decide, bytes "logs", by decide, by decide⟩
      · rw [List.mem_singleton.1 hpath]
        exact ⟨[bytes "www", bytes "data"], by decide, bytes "www/data", by decide, by decide⟩
  · intro path path' dir hpath hpath' hne hne' hdir hdir'
    rcases liesAt_srv ((hexported path).1 hpath) hne hdir with ⟨rfl, hlogs⟩ | ⟨rfl, hdata⟩
    · rcases liesAt_srv ((hexported path').1 hpath') hne' hdir' with ⟨rfl, -⟩ | ⟨-, hdata⟩
      · rfl
      · exact absurd (hlogs.symm.trans hdata) (by decide)
    · rcases liesAt_srv ((hexported path').1 hpath') hne' hdir' with ⟨-, hlogs⟩ | ⟨rfl, -⟩
      · exact absurd (hlogs.symm.trans hdata) (by decide)
      · rfl
  · intro path hpath _
    have hall : ∀ path ∈ srvExports, Literal (remote srvShare.vmHost (utf8 path)) := by decide
    exact hall path ((hexported path).1 hpath)

/-- With the pools of a disk, two exports lie outside the share: both are mounted over it, so one of them is left. -/
theorem exportsKept_false : ¬ ∀ (env : ∀ c : Vmproxy.Call, c.Answer) (os : OsType) (dsk : Vmproxy.DiskContext)
    (action : Option CustomActionConfig) (guestMountPoint exportMode : List Char) (argsOverride : Option (List Char))
    (setup : NfsShareSetup) (exports : List (List Char)) (mountPoint : List DirName),
    (∀ a ∈ action, a.validate = .ok a) →
    (Vmproxy.buildNfsExports os dsk (Vmproxy.exportPaths action guestMountPoint) exportMode argsOverride).result env = .ok () →
    (∀ path, path ∈ exports ↔
      Vmproxy.Emits env (Vmproxy.buildNfsExports os dsk (Vmproxy.exportPaths action guestMountPoint) exportMode argsOverride) path) →
    (Vmproxy.exportPaths action guestMountPoint).head?.map utf8 = some setup.sharePath → Plain setup.nfsOpts.toList →
      Literal (pathText true mountPoint) → ExportsKept setup exports (pathText true mountPoint) := by
  intro hall
  have hexported : ∀ path, Vmproxy.Exported poolDisk (some srvAction) [] path ↔
      path ∈ srvExports ++ poolDisk.zfsMountpoints.map Vmproxy.Mountpoint.path := by
    intro path
    rw [Vmproxy.Exported, exportPaths_srv, List.mem_append, List.mem_map]
    exact or_congr_right (and_iff_right rfl)
  have hvalid : ∀ a ∈ some srvAction, a.validate = .ok a := by
    intro a ha
    cases ha
    rfl
  have hkept : ∀ mountPoint : List DirName, Literal (pathText true mountPoint) → ExportsKept srvShare
      (srvExports ++ poolDisk.zfsMountpoints.map Vmproxy.Mountpoint.path) (pathText true mountPoint) := fun mountPoint =>
    hall (Vmproxy.optionsGuest []) .linux poolDisk (some srvAction) [] "rw".toList none srvShare _ mountPoint hvalid
      (srv_ok poolDisk) (fun path => ((Vmproxy.emits_iff (srv_ok poolDisk)).trans (hexported path)).symm) (by decide) plain_srv
  obtain ⟨dir, -, relative, hpath, -⟩ := ((exportsKept_iff_apart plain_srv).1 hkept).lies "/mnt/zfs_root/tank".toList (by decide)
    (by decide)
  have hhead : bytes "/mnt/" = bytes "/srv/" := congrArg (List.take 5) hpath
  revert hhead
  decide

end Anylinuxfs
