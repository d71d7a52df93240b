import Anylinuxfs.Lib.FieldLines
import Anylinuxfs.Lemmas.Text
import Anylinuxfs.Lemmas.Vmproxy
import Anylinuxfs.MountTable

/-!
# The read-only flag in the mount table

The script of `run` finds the options between the parentheses of the lines that it finds, if none come before, and reads them as one
list of options.
-/

namespace Anylinuxfs

open FieldLines
open Interact (Prog)

/-! ## Entries -/

theorem isOptionText_iff {s : List Char} : isOptionText s = true ↔
    s ≠ [] ∧ (∀ c ∈ s.head?, isWhitespace c = false) ∧ (∀ c ∈ s.getLast?, isWhitespace c = false) ∧ '\n' ∉ s ∧ ',' ∉ s := by
  unfold isOptionText edgesFilled
  cases s with
  | nil => simp
  | cons c s => simp [List.getLast?_cons, and_assoc]

namespace MountEntry

variable {os : OsType} (e : MountEntry os)

/-- What is known of a printed entry. -/
theorem spec : isOptionText e.fsType = true ∧ e.fsType ≠ "ro".toList ∧ (∀ o ∈ e.options, isOptionText o = true) ∧
    "ro".toList ∉ e.options.tail := by
  have h := e.printed
  simp only [wellPrinted, Bool.and_eq_true, decide_eq_true_eq, List.all_eq_true] at h
  exact ⟨h.1.1.1.1.2, h.1.1.1.2, h.1.1.2, h.1.2⟩

/-- In Linux the first option says whether the file system is mounted read-only. -/
theorem options_head (e : MountEntry .linux) : e.options.head? = some "ro".toList ∨ e.options.head? = some "rw".toList := by
  have h := e.printed
  simp only [wellPrinted, Bool.and_eq_true, decide_eq_true_eq] at h
  exact h.2

/-- What stands between two commas, or before the first one or behind the last one, is no blank text and on one line. -/
theorem optionTexts_spec {o : List Char} (ho : o ∈ e.optionTexts) :
    o ≠ [] ∧ (∀ c ∈ o.getLast?, isWhitespace c = false) ∧ '\n' ∉ o ∧ ',' ∉ o := by
  obtain ⟨hfs, -, hoptions, -⟩ := e.spec
  have htext : ∀ {o : List Char}, isOptionText o = true →
      o ≠ [] ∧ (∀ c ∈ o.getLast?, isWhitespace c = false) ∧ '\n' ∉ o ∧ ',' ∉ o := by
    intro o h
    obtain ⟨hne, -, hlast, hnl, hcomma⟩ := isOptionText_iff.1 h
    exact ⟨hne, hlast, hnl, hcomma⟩
  cases os with
  | linux => exact htext (hoptions o ho)
  | freeBsd =>
    rcases List.mem_cons.1 ho with rfl | ho
    · exact htext hfs
    · obtain ⟨text, htext', rfl⟩ := List.mem_map.1 ho
      obtain ⟨hne, hlast, hnl, hcomma⟩ := htext (hoptions text htext')
      refine ⟨List.cons_ne_nil _ _, ?_, ?_, ?_⟩
      · rw [List.getLast?_cons_of_ne_nil hne]
        exact hlast
      · simpa using hnl
      · simpa using hcomma

/-- There is something between the parentheses, and it does not begin with a blank. -/
theorem optionTexts_head : ∃ o rest, e.optionTexts = o :: rest ∧ ∀ c ∈ o.head?, isWhitespace c = false := by
  obtain ⟨hfs, -, hoptions, -⟩ := e.spec
  cases os with
  | linux =>
    have hne : e.options ≠ [] := by
      intro hnil
      rcases e.options_head with h | h <;> simp [hnil] at h
    obtain ⟨o, rest, ho⟩ := List.exists_cons_of_ne_nil hne
    exact ⟨o, rest, ho, (isOptionText_iff.1 (hoptions o (ho ▸ List.mem_cons_self))).2.1⟩
  | freeBsd => exact ⟨e.fsType, e.options.map (' ' :: ·), rfl, (isOptionText_iff.1 hfs).2.1⟩

theorem ro_notMem_tail : "ro".toList ∉ e.optionTexts.tail := by
  cases os with
  | linux => exact e.spec.2.2.2
  | freeBsd =>
    intro hmem
    obtain ⟨o, -, ho⟩ := List.mem_map.1 hmem
    injection ho with hc
    revert hc
    decide

/-- The script finds what is between the parentheses, if no other one comes before. -/
theorem secondField_line (h : e.Clear) : withoutClosing (secondField e.line) = [','].intercalate e.optionTexts := by
  obtain ⟨hopen, htexts⟩ := h
  have hmem : ∀ c ∈ [','].intercalate e.optionTexts, c ≠ '(' ∧ c ≠ ')' := by
    intro c hc
    rcases mem_intercalate hc with hc | ⟨o, ho, hc⟩
    · rw [List.mem_singleton.1 hc]
      decide
    · constructor
      · rintro rfl
        exact (htexts o ho).1 hc
      · rintro rfl
        exact (htexts o ho).2 hc
  have hsplit : e.line.splitOn '(' = [e.subject, [','].intercalate e.optionTexts ++ [')']] := by
    unfold line
    rw [List.append_assoc, List.append_assoc, List.singleton_append, List.splitOn_append_cons_self_of_not_mem hopen,
      List.splitOn_eq_singleton]
    intro hc
    rcases List.mem_append.1 hc with hc | hc
    · exact (hmem _ hc).1 rfl
    · simp at hc
  have hkept : ([','].intercalate e.optionTexts).filter (· ≠ ')') = [','].intercalate e.optionTexts := by
    rw [List.filter_eq_self]
    intro c hc
    exact decide_eq_true (hmem c hc).2
  rw [secondField, hsplit]
  change (_ ++ [')']).filter (· ≠ ')') = _
  rw [List.filter_append, hkept]
  exact List.append_nil _

end MountEntry

/-! ## What is read -/

section

variable {os : OsType} {finds : List Char → List Char → Bool} {table : List (MountEntry os)} {diskPath : List Char}

theorem effectiveOptionsOutput_eq (h : ∀ e ∈ foundEntries finds table diskPath, e.Clear) :
    effectiveOptionsOutput finds table diskPath =
      (((foundEntries finds table diskPath).map MountEntry.optionTexts).map fun o => [','].intercalate o ++ ['\n']).flatten := by
  unfold effectiveOptionsOutput
  rw [List.filter_map, List.map_map, List.map_map]
  refine congrArg List.flatten (List.map_congr_left ?_)
  intro e he
  exact congrArg (· ++ ['\n']) (e.secondField_line (h e he))

theorem optionTexts_ne_nil (e : MountEntry os) : e.optionTexts ≠ [] := by
  obtain ⟨o, rest, ho, -⟩ := e.optionTexts_head
  rw [ho]
  exact List.cons_ne_nil _ _

/-- Nothing but the last line break is trimmed. -/
theorem trim_joined (e : MountEntry os) (es : List (MountEntry os)) :
    trim (joined ',' '\n' ((e :: es).map MountEntry.optionTexts) ++ ['\n']) =
      joined ',' '\n' ((e :: es).map MountEntry.optionTexts) := by
  obtain ⟨o, rest, ho, hblank⟩ := e.optionTexts_head
  have hone : o ≠ [] := (e.optionTexts_spec (ho ▸ List.mem_cons_self)).1
  have hline : ∀ e : MountEntry os, [','].intercalate e.optionTexts ≠ [] := by
    intro e hnil
    obtain ⟨o, rest, ho, -⟩ := e.optionTexts_head
    have hone : o ≠ [] := (e.optionTexts_spec (ho ▸ List.mem_cons_self)).1
    have hhead : ([','].intercalate (o :: rest)).head? = o.head? := head?_intercalate hone
    rw [← ho, hnil, List.head?_nil, eq_comm, List.head?_eq_none_iff] at hhead
    exact hone hhead
  have hhead : (joined ',' '\n' ((e :: es).map MountEntry.optionTexts)).head? = o.head? := by
    unfold joined
    rw [List.map_cons, List.map_cons, head?_intercalate (hline e), ho, head?_intercalate hone]
  refine trim_append ?_ ?_ ?_ (by simp [isWhitespace])
  · intro hnil
    rw [hnil, List.head?_nil, eq_comm, List.head?_eq_none_iff] at hhead
    exact hone hhead
  · rw [hhead]
    exact hblank
  · intro c hc
    obtain ⟨line, hmem, hc⟩ := getLast?_intercalate (by simpa using ⟨hline e, fun a _ => hline a⟩) hc
    simp only [List.map_map, List.mem_map, Function.comp_apply] at hmem
    obtain ⟨a, -, rfl⟩ := hmem
    obtain ⟨o, ho, hc⟩ := getLast?_intercalate (fun o ho => (a.optionTexts_spec ho).1) hc
    exact (a.optionTexts_spec ho).2.1 c hc

/-- The script and the program take the file system for read-only when the first option of the first line they find is `ro`, and
another option or nothing follows it. -/
theorem isReadOnlySet_output (h : ∀ e ∈ foundEntries finds table diskPath, e.Clear) :
    Vmproxy.isReadOnlySet ((trim (effectiveOptionsOutput finds table diskPath)).splitOn ',') =
      showsReadOnly (foundEntries finds table diskPath) := by
  rw [effectiveOptionsOutput_eq h]
  generalize foundEntries finds table diskPath = found
  cases found with
  | nil => rfl
  | cons e es =>
    have hlines : ∀ l ∈ (e :: es).map MountEntry.optionTexts, l ≠ [] ∧ "ro".toList ∉ l.tail := by
      intro l hl
      obtain ⟨a, -, rfl⟩ := List.mem_map.1 hl
      exact ⟨optionTexts_ne_nil a, a.ro_notMem_tail⟩
    have hfields : ∀ l ∈ (e :: es).map MountEntry.optionTexts, l ≠ [] ∧ ∀ f ∈ l, ',' ∉ f := by
      intro l hl
      obtain ⟨a, -, rfl⟩ := List.mem_map.1 hl
      exact ⟨optionTexts_ne_nil a, fun f hf => (a.optionTexts_spec hf).2.2.2⟩
    rw [flatten_lines (by simp), trim_joined]
    rw [List.map_cons] at hlines hfields ⊢
    rw [splitOn_joined (by decide) hfields, Vmproxy.isReadOnlySet, Bool.eq_iff_iff, decide_eq_true_eq,
      mem_pieces_iff (by decide) hlines]
    cases es with
    | nil => simp [showsReadOnly]
    | cons e' es => simp [showsReadOnly]

/-- `ro` is found in a text exactly if the text shows it. -/
theorem isReadOnlySet_iff_showsRo (text : List Char) : Vmproxy.isReadOnlySet ((trim text).splitOn ',') = true ↔ ShowsRo text := by
  rw [Vmproxy.isReadOnlySet, decide_eq_true_eq, mem_splitOn_iff]
  constructor
  · rintro ⟨-, a, b, heq, ha, hb⟩
    obtain ⟨before, after, htext, hbefore, hafter⟩ := exists_trim text
    refine ⟨before ++ a, b ++ after, by rw [htext, heq]; simp only [List.append_assoc], ?_, ?_⟩
    · rcases ha with rfl | ha
      · exact .inr (by simpa using hbefore)
      · exact .inl (by rw [List.getLast?_append, ha]; rfl)
    · rcases hb with rfl | hb
      · exact .inr (by simpa using hafter)
      · exact .inl (by rw [List.head?_append, hb]; rfl)
  · rintro ⟨a, b, rfl, ha, hb⟩
    refine ⟨by decide, _, _, trim_around ⟨'r', rfl, by decide⟩ ⟨'o', rfl, by decide⟩ a b, ?_, ?_⟩
    · rcases ha with ha | ha
      · obtain ⟨a, rfl⟩ := List.getLast?_eq_some_iff.1 ha
        refine .inr ?_
        rw [List.dropWhile_append]
        split
        · rfl
        · simp
      · exact .inl (List.dropWhile_eq_nil_iff.2 ha)
    · rcases hb with hb | hb
      · obtain ⟨b, rfl⟩ := List.head?_eq_some_iff.1 hb
        refine .inr ?_
        rw [List.reverse_cons, List.dropWhile_append]
        split
        · rfl
        · simp
      · refine .inl ?_
        rw [List.reverse_eq_nil_iff, List.dropWhile_eq_nil_iff]
        exact fun c hc => hb c (List.mem_reverse.1 hc)

/-- What the program reads out of what the script prints, for all lines. -/
theorem isReadOnlySet_iff_linesShowRo :
    Vmproxy.isReadOnlySet ((trim (effectiveOptionsOutput finds table diskPath)).splitOn ',') = true ↔
      LinesShowRo (foundEntries finds table diskPath) := by
  unfold LinesShowRo
  by_cases hclear : ∀ e ∈ foundEntries finds table diskPath, e.Clear
  · have hnone : ¬∃ e ∈ foundEntries finds table diskPath, ¬e.Clear := fun ⟨e, he, hnot⟩ => hnot (hclear e he)
    rw [isReadOnlySet_output hclear, or_iff_left (fun h => hnone h.1), and_iff_right hclear]
  · have hsome : ∃ e ∈ foundEntries finds table diskPath, ¬e.Clear := by simpa using hclear
    have houtput : effectiveOptionsOutput finds table diskPath =
        (foundEntries finds table diskPath).flatMap fun e => withoutClosing (secondField e.line) ++ ['\n'] := by
      rw [effectiveOptionsOutput, List.filter_map, List.map_map, List.flatMap_def]
      rfl
    rw [houtput, isReadOnlySet_iff_showsRo, or_iff_right (fun h => hclear h.1), and_iff_right hsome]

end

/-! ## What the run says about the file system -/

section

open Vmproxy

variable {env : ∀ c : Vmproxy.Call, c.Answer} {dsk : DiskContext} {output : List Char}

theorem result_announced (c : Prop) [Decidable c] : (onlyIf c (println changedToRo)).result env = .ok () := by
  unfold onlyIf
  split
  · rfl
  · rfl

theorem mem_trace_announced {c : Prop} [Decidable c] : .println changedToRo ∈ (onlyIf c (println changedToRo)).trace env ↔ c := by
  unfold onlyIf
  split
  case isTrue hc => exact iff_of_true List.mem_cons_self hc
  case isFalse hc => exact iff_of_false List.not_mem_nil hc

/-- The flag is what was read, if it was not asked of `zfs`. -/
theorem result_effectiveReadOnly (hzfs : dsk.isZfs = false) (houtput : env (.effectiveOptions dsk.diskPath) = some output) :
    (effectiveReadOnly dsk).result env = .ok (isReadOnlySet ((trim output).splitOn ',')) := by
  refine Prog.result_bind_eq_ok.2 ⟨_, rfl, ?_⟩
  rw [houtput]
  refine Prog.result_bind_eq_ok.2 ⟨output, rfl, Prog.result_bind_eq_ok.2 ⟨(), rfl, ?_⟩⟩
  rw [hzfs]
  exact Prog.result_bind_eq_ok.2 ⟨(), result_announced _, rfl⟩

/-- A change is announced when the flag is not the one that was asked for. -/
theorem changedToRo_mem_trace (hzfs : dsk.isZfs = false) (houtput : env (.effectiveOptions dsk.diskPath) = some output) :
    .println changedToRo ∈ (effectiveReadOnly dsk).trace env ↔
      dsk.specifiedReadOnly ≠ isReadOnlySet ((trim output).splitOn ',') := by
  have hline : Vmproxy.Call.println changedToRo ≠ .println (optionsLine (trim output)) := by
    intro heq
    have hhead : some '<' = some 'E' := congrArg List.head? (Vmproxy.Call.println.inj heq)
    revert hhead
    decide
  have htrace : (effectiveReadOnly dsk).trace env = .effectiveOptions dsk.diskPath :: .println (optionsLine (trim output)) ::
      ((onlyIf (dsk.specifiedReadOnly ≠ isReadOnlySet ((trim output).splitOn ',')) (println changedToRo)).trace env ++ []) := by
    refine congrArg (Vmproxy.Call.effectiveOptions dsk.diskPath :: ·) ?_
    rw [houtput]
    refine congrArg (Vmproxy.Call.println (optionsLine (trim output)) :: ·) ?_
    rw [hzfs]
    change (onlyIf (dsk.specifiedReadOnly ≠ isReadOnlySet ((trim output).splitOn ',')) (println changedToRo) >>= fun _ =>
      pure (isReadOnlySet ((trim output).splitOn ','))).trace env = _
    rw [Prog.trace_bind, result_announced]
    rfl
  rw [htrace, List.mem_cons, List.mem_cons, List.append_nil, or_iff_right nofun, or_iff_right hline, mem_trace_announced]

end

theorem exportMode_eq_ro {readOnly : Bool} : exportMode readOnly = "ro".toList ↔ readOnly = true := by
  revert readOnly
  decide

/-- The run says the truth about the file system exactly when the lines that the script finds show `ro` just in case the mount is
read-only, and a mount that was to be read-only is. -/
theorem detectsReadOnly_iff {os : OsType} {finds : List Char → List Char → Bool} {table : List (MountEntry os)}
    {env : ∀ c : Vmproxy.Call, c.Answer} {dsk : Vmproxy.DiskContext} {mountPoint : List Char} (hzfs : dsk.isZfs = false)
    (houtput : env (.effectiveOptions dsk.diskPath) = some (effectiveOptionsOutput finds table dsk.diskPath)) :
    DetectsReadOnly env dsk (mountedReadOnly table dsk.diskPath mountPoint) ↔
      (LinesShowRo (foundEntries finds table dsk.diskPath) ↔ mountedReadOnly table dsk.diskPath mountPoint = true) ∧
        (dsk.specifiedReadOnly = true → mountedReadOnly table dsk.diskPath mountPoint = true) := by
  have hresult := result_effectiveReadOnly hzfs houtput
  have htrace := changedToRo_mem_trace hzfs houtput
  rw [← isReadOnlySet_iff_linesShowRo, ← Bool.eq_iff_iff]
  generalize Vmproxy.isReadOnlySet ((trim (effectiveOptionsOutput finds table dsk.diskPath)).splitOn ',') = shown at *
  generalize mountedReadOnly table dsk.diskPath mountPoint = readOnly at *
  constructor
  · rintro ⟨hexact, hexported, -⟩
    rw [hresult] at hexact hexported
    have hshows : shown = readOnly := by injection hexact
    refine ⟨hshows, ?_⟩
    intro hspecified
    have hmode : exportMode shown = "ro".toList := by
      injection hexported (.inl hspecified)
    rw [hshows] at hmode
    exact exportMode_eq_ro.1 hmode
  · rintro ⟨hshows, hspecified⟩
    rw [hshows] at hresult htrace
    refine ⟨hresult, ?_, ?_⟩
    · intro hro
      rw [hresult, hro.elim hspecified id]
      rfl
    · intro hmem
      have hne := htrace.1 hmem
      cases readOnly with
      | false => cases hs : dsk.specifiedReadOnly with
        | false => exact absurd hs hne
        | true => exact absurd (hspecified hs) Bool.false_ne_true
      | true => exact ⟨by simpa using hne, rfl⟩

/-! ## Two guests -/

/-- The disk of a mount with some options. -/
def mountedDisk (diskPath mountOptions : List Char) : Vmproxy.DiskContext :=
  { Vmproxy.DiskContext.new { diskPath, mountName := "data".toList } with mountOptions := some mountOptions }

/-- `grep` finds a path without special characters in the lines that it stands in. -/
def findsPath (path line : List Char) : Bool := (findFrom path line).isSome

/-- A guest with Linux: a file system that is mounted read-only because it is not clean, under a label with a parenthesis. -/
def linuxTable : List (MountEntry .linux) :=
  [{ source := "proc".toList, device := "proc".toList, mountPoint := "/proc".toList, fsType := "proc".toList,
      options := ["rw".toList, "relatime".toList], printed := by decide },
    { source := "/dev/vda1".toList, device := "/dev/vda1".toList, mountPoint := "/mnt/1) Backup".toList, fsType := "ntfs3".toList,
      options := ["ro".toList, "relatime".toList], printed := by decide }]

theorem detectsReadOnly_linuxTable :
    DetectsReadOnly (Vmproxy.optionsGuest (effectiveOptionsOutput findsPath linuxTable "/dev/vda1".toList))
      (mountedDisk "/dev/vda1".toList "rw".toList) (mountedReadOnly linuxTable "/dev/vda1".toList "/mnt/1) Backup".toList) := by
  refine (detectsReadOnly_iff rfl rfl).2 ⟨iff_of_true (.inl ⟨?_, ?_⟩) ?_, ?_⟩
  · show ∀ e ∈ foundEntries findsPath linuxTable "/dev/vda1".toList, e.Clear
    decide
  all_goals decide

/-- A guest with FreeBSD: a file system that was to be mounted read-only, and is. -/
def freeBsdTable : List (MountEntry .freeBsd) :=
  [{ source := "/dev/vtbd1p1".toList, device := "/dev/vtbd1p1".toList, mountPoint := "/mnt/data".toList, fsType := "ufs".toList,
      options := ["local".toList, "read-only".toList], printed := by decide }]

/-- It is exported read-write: `mount` calls it `read-only`, which is not `ro`. -/
theorem detectsReadOnly_false : ¬ ∀ (os : OsType) (finds : List Char → List Char → Bool) (table : List (MountEntry os))
    (env : ∀ c : Vmproxy.Call, c.Answer) (dsk : Vmproxy.DiskContext) (mountPoint : List Char), dsk.isZfs = false →
      env (.effectiveOptions dsk.diskPath) = some (effectiveOptionsOutput finds table dsk.diskPath) →
        DetectsReadOnly env dsk (mountedReadOnly table dsk.diskPath mountPoint) := by
  intro hall
  have hdetects := hall .freeBsd findsPath freeBsdTable
    (Vmproxy.optionsGuest (effectiveOptionsOutput findsPath freeBsdTable "/dev/vtbd1p1".toList))
    (mountedDisk "/dev/vtbd1p1".toList "ro".toList) "/mnt/data".toList rfl rfl
  have hresult := hdetects.exact
  rw [result_effectiveReadOnly rfl rfl] at hresult
  have hread : Vmproxy.isReadOnlySet ((trim (effectiveOptionsOutput findsPath freeBsdTable "/dev/vtbd1p1".toList)).splitOn ',') =
      mountedReadOnly freeBsdTable "/dev/vtbd1p1".toList "/mnt/data".toList := by injection hresult
  rw [isReadOnlySet_output (by decide)] at hread
  revert hread
  decide

end Anylinuxfs
