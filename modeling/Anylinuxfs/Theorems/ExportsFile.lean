import Anylinuxfs.Lemmas.Utf8
import Anylinuxfs.Lib.ExportsBsd
import Anylinuxfs.Lib.ExportsRender
import Anylinuxfs.Theorems.ExportMounts

/-!
# The exports file

The exports file of the guest, read as its NFS server reads it, has one entry for every exported path exactly when no path and no
options have in them what the grammar of the file takes for something else: nothing is escaped when it is written.
-/

namespace Anylinuxfs

open Interact (Prog)

namespace Vmproxy

variable {env : ∀ c : Call, c.Answer} {os : OsType} {dsk : DiskContext} {paths : List (List Char)} {exportMode : List Char}
  {argsOverride : Option (List Char)}

/-! ## The claim on a file -/

/-- The paths to be exported, those of the datasets included. -/
def DiskContext.allPaths (dsk : DiskContext) (exportPaths : List (List Char)) : List (List Char) :=
  if dsk.isZfs then dsk.zfsMountpoints.map Mountpoint.path ++ exportPaths else exportPaths

/-- What stands behind the arguments on a line of FreeBSD. -/
def networkTail : Bytes := bytes ",network 0.0.0.0/0"

/-- The file, read by the grammar of the system, has one entry for each export, with its path and its arguments. -/
def HasEntries (os : OsType) (exports : List (List Char × List Char)) (content : List Char) : Prop :=
  match os with
  | .linux => ∃ entries, Exports.linux (utf8 content) = some entries ∧
      entries.Perm (exports.map fun e => ⟨utf8 e.1, [⟨bytes "*", some (utf8 e.2)⟩]⟩)
  | .freeBsd => (Exports.freeBsd (utf8 content)).Perm
      (exports.map fun e => ⟨[utf8 e.1], Exports.fields (utf8 e.2 ++ networkTail)⟩)

/-- The file that is written has one entry for each path, once, with the arguments that are found for it. -/
def ExportsRoundTrip (os : OsType) (dsk : DiskContext) (exportPaths : List (List Char)) (exportMode : List Char)
    (argsOverride : Option (List Char)) : Prop :=
  ∀ (env : ∀ c : Call, c.Answer) (file content : List Char),
    Call.writeExports file content ∈ (buildNfsExports os dsk exportPaths exportMode argsOverride).trace env →
    ∃ exports : List (List Char × List Char), (exports.map Prod.fst).Nodup ∧
      (∀ path, path ∈ exports.map Prod.fst ↔ path ∈ dsk.allPaths exportPaths) ∧
      (∀ e ∈ exports, ∃ fsid, (exportArgsForPath os e.1 exportMode fsid argsOverride).result env = .ok e.2) ∧
      HasEntries os exports content

/-- A path and the options in effect are read as they stand. -/
def ReadAsWritten (os : OsType) (exportMode : List Char) (argsOverride : Option (List Char)) (path : List Char) : Prop :=
  match os with
  | .linux => Exports.Quotable (utf8 path) ∧ Exports.Plain (utf8 (argsOverride.getD exportMode))
  | .freeBsd => Exports.BsdPath (utf8 path) ∧ ∀ args, argsOverride = some args → Exports.BsdOptions networkTail (utf8 args)

/-! ## What is written -/

/-- The gap behind a path. -/
def gap : Bytes := bytes "      "

theorem gap_gap : Exports.Gap gap where
  nonempty := by decide
  spaces := List.all_eq_true.1 (by decide)

theorem bytes_star : bytes "*" = [0x2a] := by decide

theorem host_star : Exports.Host (bytes "*") where
  start := by
    rw [bytes_star]
    rintro b ⟨⟩
    decide
  bytes := by
    rw [bytes_star, List.forall_mem_singleton]
    decide

theorem bsdTail_network : Exports.BsdTail networkTail where
  nonempty := by decide
  unbroken := by decide
  closed := by decide

theorem utf8_exportsEntry_linux (path args : List Char) :
    utf8 (exportsEntry .linux path args) = Exports.render gap (bytes "*") (utf8 path, utf8 args) := by
  have hquote : String.utf8EncodeChar '"' = [Exports.quote] := rfl
  have hmiddle : utf8 "\"      *(".toList = Exports.quote :: (gap ++ (bytes "*" ++ [Exports.opening])) := by decide
  have hend : utf8 ")\n".toList = [Exports.closing, Exports.newline] := by decide
  rw [exportsEntry, utf8_append, utf8_append, utf8_append, utf8_cons, hquote, hmiddle, hend, Exports.render]
  simp

theorem utf8_exportsEntry_freeBsd (path args : List Char) :
    utf8 (exportsEntry .freeBsd path args) = Exports.renderBsd networkTail (utf8 path, utf8 args) := by
  have hend : utf8 ",network 0.0.0.0/0\n".toList = networkTail ++ [Exports.newline] := by decide
  have hblank : utf8 [' '] = [0x20] := rfl
  rw [exportsEntry, utf8_append, utf8_append, utf8_append, hend, hblank, Exports.renderBsd]
  simp

/-! ## The arguments -/

/-- The decimal digits stand for themselves. -/
theorem isPlain_of_mem_digits {n : Nat} {b : UInt8} (h : b ∈ utf8 (Nat.toDigits 10 n)) : Exports.isPlain b = true := by
  obtain ⟨c, hc, hb⟩ := List.mem_flatMap.1 h
  have hdigit : c.isDigit = true := Nat.isDigit_of_mem_toDigits (by decide) (by decide) hc
  have hrange : 0x30 ≤ c.toNat ∧ c.toNat < 0x3a := by
    simp only [Char.isDigit, Bool.and_eq_true, decide_eq_true_eq, ge_iff_le] at hdigit
    exact ⟨hdigit.1, Nat.lt_succ_of_le hdigit.2⟩
  have hall : ∀ n < 0x3a, 0x30 ≤ n → Exports.isPlain (UInt8.ofNat n) = true := by decide
  rw [utf8EncodeChar_of_ascii (by omega), List.mem_singleton] at hb
  rw [hb]
  exact hall _ hrange.2 hrange.1

/-- What is put behind the options in Linux stands for itself. -/
theorem plain_linux_iff {path args : List Char} {fsid : Nat}
    (h : (exportArgsForPath .linux path exportMode fsid argsOverride).result env = .ok args) :
    Exports.Plain (utf8 args) ↔ Exports.Plain (utf8 (argsOverride.getD exportMode)) := by
  have hbase : Exports.Plain (utf8 (argsOverride.getD (exportMode ++ ",no_subtree_check,no_root_squash,insecure".toList))) ↔
      Exports.Plain (utf8 (argsOverride.getD exportMode)) := by
    cases argsOverride with
    | some args => exact Iff.rfl
    | none =>
      have hstart : (utf8 ",no_subtree_check,no_root_squash,insecure".toList).head? = some 0x2c := by decide
      rw [Option.getD_none, Option.getD_none, utf8_append]
      refine Exports.plain_append_iff (fun b hb => ?_) (List.all_eq_true.1 (by decide))
      rw [hstart] at hb
      rw [← Option.some.inj hb]
      decide
  rw [← hbase]
  obtain ⟨answer, -, h⟩ := Prog.result_bind_eq_ok.1 h
  cases answer with
  | none => cases h
  | some fType =>
    change Prog.result env (if _ then _ else _) = _ at h
    split at h
    · obtain rfl := Except.ok.inj h
      have hstart : (utf8 ",fsid=".toList).head? = some 0x2c := by decide
      have hfsid : ∀ b ∈ utf8 ",fsid=".toList, Exports.isPlain b = true := List.all_eq_true.1 (by decide)
      rw [List.append_assoc, utf8_append, utf8_append]
      refine Exports.plain_append_iff (fun b hb => ?_) fun b hb => ?_
      · rw [List.head?_append_of_ne_nil _ (List.ne_nil_of_mem (List.mem_of_mem_head? hstart)), hstart] at hb
        rw [← Option.some.inj hb]
        decide
      · exact (List.mem_append.1 hb).elim (hfsid b) isPlain_of_mem_digits
    · obtain rfl := Except.ok.inj h
      exact Iff.rfl

/-- The options of the code itself are read as they stand in FreeBSD. -/
theorem bsdOptions_iff {path args : List Char} {fsid : Nat}
    (h : (exportArgsForPath .freeBsd path exportMode fsid argsOverride).result env = .ok args) :
    Exports.BsdOptions networkTail (utf8 args) ↔ ∀ args, argsOverride = some args → Exports.BsdOptions networkTail (utf8 args) := by
  have hargs : argsOverride.getD ((if exportMode = "ro".toList then "-ro ".toList else []) ++ "-maproot=root".toList) = args :=
    Except.ok.inj h
  cases argsOverride with
  | some override =>
    rw [← hargs]
    simp
  | none =>
    refine iff_of_true ?_ nofun
    rw [← hargs, Option.getD_none]
    split
    · exact ⟨by decide, by decide⟩
    · exact ⟨by decide, by decide⟩

/-- Every export has the arguments of its path. -/
theorem exists_fsid {i : Nat} {exports : List (List Char × List Char)}
    (h : (exportArgs os exportMode argsOverride i paths).result env = .ok exports) :
    ∀ e ∈ exports, ∃ fsid, (exportArgsForPath os e.1 exportMode fsid argsOverride).result env = .ok e.2 := by
  induction paths generalizing i exports with
  | nil =>
    obtain rfl := Except.ok.inj h
    exact fun _ he => absurd he List.not_mem_nil
  | cons path paths ih =>
    obtain ⟨args, hargs, h⟩ := Prog.result_bind_eq_ok.1 h
    obtain ⟨others, hothers, h⟩ := Prog.result_bind_eq_ok.1 h
    obtain rfl := Except.ok.inj h
    intro e he
    rcases List.mem_cons.1 he with rfl | he
    · exact ⟨i, hargs⟩
    · exact ih hothers e he

/-! ## The run -/

theorem not_writes_printExports {exports : List (List Char × List Char)} {file content : List Char} :
    Call.writeExports file content ∉ (printExports exports).trace env := by
  induction exports with
  | nil => nofun
  | cons e exports ih =>
    obtain ⟨path, args⟩ := e
    intro h
    rcases List.mem_cons.1 h with h | h
    · cases h
    · exact ih h

theorem result_printExports (exports : List (List Char × List Char)) : (printExports exports).result env = .ok () := by
  induction exports with
  | nil => rfl
  | cons e exports ih => exact Prog.result_bind_eq_ok.2 ⟨(), rfl, ih⟩

/-- What is written are the lines of the exports. -/
theorem writes_iff {file content : List Char} :
    Call.writeExports file content ∈ (buildNfsExports os dsk paths exportMode argsOverride).trace env ↔
      ∃ exports, (exportArgs os exportMode argsOverride 0
          ((dsk.allPaths paths).foldl (fun set path => setInsert path set) [])).result env = .ok exports ∧
        file = exportsPath os ∧ content = exports.flatMap fun e => exportsEntry os e.1 e.2 := by
  constructor
  · intro h
    rcases Prog.mem_trace_bind.1 h with h | ⟨exports, hexports, h⟩
    · obtain ⟨path, heq⟩ := statfs_of_mem_trace h
      cases heq
    · rcases Prog.mem_trace_bind.1 h with h | ⟨_, -, h⟩
      · exact absurd h not_writes_printExports
      · rcases Prog.mem_trace_bind.1 h with h | ⟨written, -, h⟩
        · obtain ⟨rfl, rfl⟩ := Call.writeExports.inj (List.mem_singleton.1 h)
          exact ⟨exports, hexports, rfl, rfl⟩
        · rcases Prog.mem_trace_bind.1 h with h | ⟨_, -, h⟩
          · cases written <;> cases h
          · cases List.mem_singleton.1 h
  · rintro ⟨exports, hexports, rfl, rfl⟩
    refine Prog.mem_trace_bind.2 (.inr ⟨exports, hexports, Prog.mem_trace_bind.2 (.inr ⟨(), result_printExports exports, ?_⟩)⟩)
    exact Prog.mem_trace_bind.2 (.inl (List.mem_singleton.2 rfl))

/-! ## What is read back -/

theorem utf8_flatMap {α : Type} (f : α → List Char) (l : List α) : utf8 (l.flatMap f) = l.flatMap fun a => utf8 (f a) :=
  List.flatMap_assoc

/-- The entries of the file are those of the exports exactly when all of these are read as they stand. -/
theorem hasEntries_iff {exports : List (List Char × List Char)}
    (hargs : ∀ e ∈ exports, ∃ fsid, (exportArgsForPath os e.1 exportMode fsid argsOverride).result env = .ok e.2) :
    HasEntries os exports (exports.flatMap fun e => exportsEntry os e.1 e.2) ↔
      ∀ e ∈ exports, ReadAsWritten os exportMode argsOverride e.1 := by
  cases os with
  | linux =>
    have htext : utf8 (exports.flatMap fun e => exportsEntry .linux e.1 e.2) =
        Exports.renderAll gap (bytes "*") (exports.map fun e => (utf8 e.1, utf8 e.2)) := by
      rw [utf8_flatMap, Exports.renderAll, List.flatMap_map]
      simp only [utf8_exportsEntry_linux]
    have hentries := Exports.linux_renderAll_iff gap_gap host_star (exports.map fun e => (utf8 e.1, utf8 e.2))
    rw [List.map_map, List.forall_mem_map] at hentries
    rw [HasEntries, htext]
    refine hentries.trans (forall₂_congr fun e he => ?_)
    obtain ⟨fsid, hfsid⟩ := hargs e he
    exact and_congr_right fun _ => plain_linux_iff hfsid
  | freeBsd =>
    have htext : utf8 (exports.flatMap fun e => exportsEntry .freeBsd e.1 e.2) =
        (exports.map fun e => (utf8 e.1, utf8 e.2)).flatMap (Exports.renderBsd networkTail) := by
      rw [utf8_flatMap, List.flatMap_map]
      simp only [utf8_exportsEntry_freeBsd]
    have hentries := Exports.freeBsd_flatMap_iff bsdTail_network (exports.map fun e => (utf8 e.1, utf8 e.2))
    rw [List.map_map, List.forall_mem_map] at hentries
    rw [HasEntries, htext]
    refine hentries.trans (forall₂_congr fun e he => ?_)
    obtain ⟨fsid, hfsid⟩ := hargs e he
    exact and_congr_right fun _ => bsdOptions_iff hfsid

theorem HasEntries.perm {exports exports' : List (List Char × List Char)} {content : List Char} (h : HasEntries os exports content)
    (hperm : exports.Perm exports') : HasEntries os exports' content := by
  cases os with
  | linux =>
    obtain ⟨entries, hread, hentries⟩ := h
    exact ⟨entries, hread, hentries.trans (hperm.map _)⟩
  | freeBsd => exact h.trans (hperm.map _)

/-- Each of the paths is exported once. -/
theorem nodup_foldl_setInsert (l : List (List Char)) : (l.foldl (fun set path => setInsert path set) []).Nodup := by
  have hsorted : ∀ set : List (List Char), set.Pairwise (· < ·) →
      (l.foldl (fun set path => setInsert path set) set).Pairwise (· < ·) := by
    induction l with
    | nil => exact fun _ h => h
    | cons path l ih => exact fun set h => ih _ (pairwise_setInsert path h)
  have hne : ∀ {a b : List Char}, a < b → a ≠ b := by
    rintro a _ hlt rfl
    exact List.lt_irrefl a hlt
  exact (hsorted [] .nil).imp hne

/-- What the exports of a run are. -/
theorem exports_spec {exports : List (List Char × List Char)} (h : (exportArgs os exportMode argsOverride 0
    ((dsk.allPaths paths).foldl (fun set path => setInsert path set) [])).result env = .ok exports) :
    (exports.map Prod.fst).Nodup ∧ (∀ path, path ∈ exports.map Prod.fst ↔ path ∈ dsk.allPaths paths) ∧
      ∀ e ∈ exports, ∃ fsid, (exportArgsForPath os e.1 exportMode fsid argsOverride).result env = .ok e.2 := by
  refine ⟨?_, fun path => ?_, exists_fsid h⟩
  · rw [exportArgs_paths h]
    exact nodup_foldl_setInsert _
  · rw [exportArgs_paths h, mem_foldl_setInsert_iff, or_iff_left List.not_mem_nil]

/-! ## The claim -/

/-- The file is read back if each path and the options in effect are read as they stand. -/
theorem exportsRoundTrip_of_readAsWritten (h : ∀ path ∈ dsk.allPaths paths, ReadAsWritten os exportMode argsOverride path) :
    ExportsRoundTrip os dsk paths exportMode argsOverride := by
  intro env file content hwritten
  obtain ⟨exports, hexports, rfl, rfl⟩ := writes_iff.1 hwritten
  obtain ⟨hnodup, hmem, hargs⟩ := exports_spec hexports
  refine ⟨exports, hnodup, hmem, hargs, (hasEntries_iff hargs).2 fun e he => ?_⟩
  exact h e.1 ((hmem e.1).1 (List.mem_map_of_mem he))

/-- In a guest without a FUSE file system, the arguments do not depend on the path. -/
theorem exists_args (os : OsType) (exportMode : List Char) (argsOverride : Option (List Char)) : ∃ args, ∀ path fsid,
    (exportArgsForPath os path exportMode fsid argsOverride).result (optionsGuest []) = .ok args := by
  cases os with
  | linux => exact ⟨argsOverride.getD (exportMode ++ ",no_subtree_check,no_root_squash,insecure".toList), fun _ _ => rfl⟩
  | freeBsd => exact ⟨_, fun _ _ => rfl⟩

/-- The file is read back only then. -/
theorem readAsWritten_of_exportsRoundTrip (h : ExportsRoundTrip os dsk paths exportMode argsOverride) :
    ∀ path ∈ dsk.allPaths paths, ReadAsWritten os exportMode argsOverride path := by
  have hok : (buildNfsExports os dsk paths exportMode argsOverride).result (optionsGuest []) = .ok () :=
    buildNfsExports_ok (fun _ => rfl) fun _ _ => rfl
  obtain ⟨exports, hexports, -⟩ := Prog.result_bind_eq_ok.1 hok
  obtain ⟨hnodup, hmem, hargs⟩ := exports_spec hexports
  obtain ⟨exports', hnodup', hmem', hargs', hentries⟩ := h (optionsGuest []) _ _ (writes_iff.2 ⟨exports, hexports, rfl, rfl⟩)
  obtain ⟨args, hall⟩ := exists_args os exportMode argsOverride
  have hsame : ∀ l : List (List Char × List Char),
      (∀ e ∈ l, ∃ fsid, (exportArgsForPath os e.1 exportMode fsid argsOverride).result (optionsGuest []) = .ok e.2) →
      l = (l.map Prod.fst).map fun path => (path, args) := by
    intro l hl
    rw [List.map_map]
    refine (List.map_id l).symm.trans (List.map_congr_left fun e he => ?_)
    obtain ⟨fsid, hfsid⟩ := hl e he
    exact Prod.ext rfl (Except.ok.inj (hfsid.symm.trans (hall e.1 fsid)))
  have hperm : exports'.Perm exports := by
    rw [hsame exports' hargs', hsame exports hargs]
    refine List.Perm.map _ ((List.perm_ext_iff_of_nodup hnodup' hnodup).2 fun path => ?_)
    rw [hmem', hmem]
  intro path hpath
  obtain ⟨e, he, rfl⟩ := List.mem_map.1 ((hmem path).2 hpath)
  exact (hasEntries_iff hargs).1 (hentries.perm hperm) e he

/-- The exports file is read back as it was meant exactly when each path and the options in effect are read as they stand. -/
theorem exportsRoundTrip_iff (os : OsType) (dsk : DiskContext) (paths : List (List Char)) (exportMode : List Char)
    (argsOverride : Option (List Char)) : ExportsRoundTrip os dsk paths exportMode argsOverride ↔
      ∀ path ∈ dsk.allPaths paths, ReadAsWritten os exportMode argsOverride path :=
  ⟨readAsWritten_of_exportsRoundTrip, exportsRoundTrip_of_readAsWritten⟩

/-- A label with a quote in it, which is left in the path of the mount, is not read back. -/
theorem exportsRoundTrip_false : ∃ name, pathSafeLabelName "a\"b".toList = some name ∧
    ¬ ExportsRoundTrip .linux plainDisk (exportPaths none (underMnt name)) "rw".toList none := by
  refine ⟨"a\"b".toList, by decide, fun h => ?_⟩
  have hread := readAsWritten_of_exportsRoundTrip h (underMnt "a\"b".toList) (by decide)
  exact absurd hread.1.unquoted (by decide)

end Vmproxy

end Anylinuxfs
