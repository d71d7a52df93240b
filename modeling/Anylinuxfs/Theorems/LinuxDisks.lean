import Anylinuxfs.LinuxDisks

/-!
# Which names are listed as disks

Every whole disk is recognized. The converse fails for names that the prefix, the one letter and the absence of a `p` do not tell
from it: partitions (`sda1`), controllers (`nvme0`) and boot areas (`mmcblk0boot0`).
-/

namespace Anylinuxfs

namespace LinuxDisks

variable {files : BackingFiles} {name before rest : List Char}

/-! ## Prefixes -/

/-- What the names of disks begin with. -/
def prefixes : List (List Char) := letterPrefixes ++ ["nvme".toList, "mmcblk".toList, "loop".toList]

/-- The prefixes differ in their first letter. -/
theorem append_inj_of_prefixes {other rest' : List Char} (hbefore : before ∈ prefixes) (hother : other ∈ prefixes)
    (h : before ++ rest = other ++ rest') : before = other ∧ rest = rest' := by
  have hhead : ∀ p ∈ prefixes, p ≠ [] ∧ ∀ q ∈ prefixes, p.head? = q.head? → p = q := by decide
  have heq : before.head? = other.head? := by
    have hfirst := congrArg List.head? h
    rwa [List.head?_append_of_ne_nil _ (hhead before hbefore).1, List.head?_append_of_ne_nil _ (hhead other hother).1] at hfirst
  obtain rfl := (hhead before hbefore).2 other hother heq
  exact ⟨rfl, List.append_cancel_left h⟩

/-- What is behind the prefix of a whole disk. -/
theorem wholeDisk_append (hbefore : before ∈ prefixes) (h : WholeDisk files (before ++ rest)) :
    (before ∈ letterPrefixes → Letters rest) ∧ (before = "nvme".toList → NamespaceNode rest) ∧
      (before = "mmcblk".toList → Digits rest) := by
  have hdistinct : "nvme".toList ∉ letterPrefixes ∧ "mmcblk".toList ∉ letterPrefixes ∧ "loop".toList ∉ letterPrefixes := by decide
  generalize hname : before ++ rest = name at h
  cases h with
  | lettered hother hletters =>
    obtain ⟨rfl, rfl⟩ := append_inj_of_prefixes hbefore (List.mem_append_left _ hother) hname
    exact ⟨fun _ => hletters, fun heq => absurd (heq ▸ hother) hdistinct.1, fun heq => absurd (heq ▸ hother) hdistinct.2.1⟩
  | nvme hrest =>
    obtain ⟨rfl, rfl⟩ := append_inj_of_prefixes hbefore (by decide) hname
    exact ⟨fun hmem => absurd hmem hdistinct.1, fun _ => hrest, fun heq => absurd heq (by decide)⟩
  | mmcblk hrest =>
    obtain ⟨rfl, rfl⟩ := append_inj_of_prefixes hbefore (by decide) hname
    exact ⟨fun hmem => absurd hmem hdistinct.2.1, fun heq => absurd heq (by decide), fun _ => hrest⟩
  | loop hrest =>
    obtain ⟨rfl, rfl⟩ := append_inj_of_prefixes hbefore (by decide) hname
    exact ⟨fun hmem => absurd hmem hdistinct.2.2, fun heq => absurd heq (by decide), fun heq => absurd heq (by decide)⟩

/-! ## What is recognized -/

theorem isSupported_lettered (hbefore : before ∈ letterPrefixes) (rest : List Char) :
    isSupportedDiskName files (before ++ rest) = rest.head?.any Char.isAlpha := by
  simp only [letterPrefixes, List.mem_cons, List.not_mem_nil, or_false] at hbefore
  rcases hbefore with rfl | rfl | rfl | rfl <;> cases rest <;> rfl

theorem isSupported_nvme (rest : List Char) : isSupportedDiskName files ("nvme".toList ++ rest) = !rest.contains 'p' := rfl

theorem isSupported_mmcblk (rest : List Char) : isSupportedDiskName files ("mmcblk".toList ++ rest) = !rest.contains 'p' := rfl

theorem isSupported_loop (rest : List Char) :
    isSupportedDiskName files ("loop".toList ++ rest) =
      (rest ≠ [] && rest.all Char.isDigit && (loopBackingFile files ("loop".toList ++ rest)).isSome) := rfl

theorem contains_p_eq_false_iff : (!rest.contains 'p') = true ↔ 'p' ∉ rest := by
  simp

/-- A name that is recognized has one of the prefixes. -/
theorem exists_prefix_of_isSupported (h : isSupportedDiskName files name = true) : ∃ before ∈ prefixes, ∃ rest, name = before ++ rest := by
  by_contra hno
  have hprefix : ∀ before ∈ prefixes, before.isPrefixOf name = false := by
    intro before hbefore
    refine Bool.eq_false_iff.2 fun hpre => ?_
    obtain ⟨rest, hrest⟩ := List.isPrefixOf_iff_prefix.1 hpre
    exact hno ⟨before, hbefore, rest, hrest.symm⟩
  have hsd := hprefix "sd".toList (by decide)
  have hvd := hprefix "vd".toList (by decide)
  have hxvd := hprefix "xvd".toList (by decide)
  have hhd := hprefix "hd".toList (by decide)
  have hnvme := hprefix "nvme".toList (by decide)
  have hmmcblk := hprefix "mmcblk".toList (by decide)
  have hloop := hprefix "loop".toList (by decide)
  rw [isSupportedDiskName, hsd, hvd, hxvd, hhd, hnvme, hmmcblk, hloop] at h
  exact Bool.false_ne_true h

theorem notMem_of_digits (h : Digits rest) : 'p' ∉ rest := fun hmem => absurd (h.2 'p' hmem) (by decide)

/-- Every whole disk is recognized. -/
theorem WholeDisk.isSupported (h : WholeDisk files name) : isSupportedDiskName files name = true := by
  cases h with
  | @lettered before letters hbefore hletters =>
    rw [isSupported_lettered hbefore]
    obtain ⟨c, rest, rfl⟩ := List.exists_cons_of_ne_nil hletters.1
    have hlower := hletters.2 c List.mem_cons_self
    change (c.isUpper || c.isLower) = true
    rw [hlower, Bool.or_true]
  | nvme hrest =>
    obtain ⟨ctrl, ns, rfl, hctrl, hns⟩ := hrest
    rw [isSupported_nvme, contains_p_eq_false_iff, List.mem_append, List.mem_cons]
    rintro (hmem | heq | hmem)
    · exact notMem_of_digits hctrl hmem
    · exact absurd heq (by decide)
    · exact notMem_of_digits hns hmem
  | mmcblk hrest =>
    rw [isSupported_mmcblk, contains_p_eq_false_iff]
    exact notMem_of_digits hrest
  | loop hrest hbacking =>
    rw [isSupported_loop, Bool.and_eq_true, Bool.and_eq_true]
    exact ⟨⟨decide_eq_true hrest.1, List.all_eq_true.2 hrest.2⟩, Option.isSome_iff_ne_none.2 hbacking⟩

theorem mem_enumeratePhysicalDisks {entries : Option (List (Option (List Char)))} (h : name ∈ enumeratePhysicalDisks files entries) :
    isSupportedDiskName files name = true := by
  cases entries with
  | none => cases h
  | some entries => exact (List.mem_filter.1 (List.mem_mergeSort.1 h)).2

theorem Telling.wholeDisk (h : Telling name) (hsupported : isSupportedDiskName files name = true) : WholeDisk files name := by
  obtain ⟨before, hbefore, rest, rfl⟩ := exists_prefix_of_isSupported hsupported
  rcases List.mem_append.1 hbefore with hletter | hother
  · rw [isSupported_lettered hletter, Option.any_eq_true] at hsupported
    exact .lettered hletter (h.lettered before hletter rest rfl hsupported)
  · simp only [List.mem_cons, List.not_mem_nil, or_false] at hother
    rcases hother with rfl | rfl | rfl
    · rw [isSupported_nvme, contains_p_eq_false_iff] at hsupported
      exact .nvme (h.nvme rest rfl hsupported)
    · rw [isSupported_mmcblk, contains_p_eq_false_iff] at hsupported
      exact .mmcblk (h.mmcblk rest rfl hsupported)
    · rw [isSupported_loop, Bool.and_eq_true, Bool.and_eq_true] at hsupported
      obtain ⟨⟨hne, hdigits⟩, hbacking⟩ := hsupported
      exact .loop ⟨of_decide_eq_true hne, List.all_eq_true.1 hdigits⟩ (Option.isSome_iff_ne_none.1 hbacking)

/-- A name is recognized exactly if it is that of a whole disk, if and only if it is one of those that the code can tell. -/
theorem nameRight_iff (files : BackingFiles) (name : List Char) : NameRight files name ↔ Telling name := by
  constructor
  · intro h
    refine ⟨fun before hbefore rest hname hhead => ?_, fun rest hname hp => ?_, fun rest hname hp => ?_⟩
    · subst hname
      have hwhole := h.recognized.1 ((isSupported_lettered hbefore rest).trans ((Option.any_eq_true _ _).2 hhead))
      exact (wholeDisk_append (List.mem_append_left _ hbefore) hwhole).1 hbefore
    · subst hname
      have hwhole := h.recognized.1 ((isSupported_nvme rest).trans (contains_p_eq_false_iff.2 hp))
      exact (wholeDisk_append (by decide) hwhole).2.1 rfl
    · subst hname
      have hwhole := h.recognized.1 ((isSupported_mmcblk rest).trans (contains_p_eq_false_iff.2 hp))
      exact (wholeDisk_append (by decide) hwhole).2.2 rfl
  · intro h
    exact ⟨⟨h.wholeDisk, WholeDisk.isSupported⟩, fun entries hmem => h.wholeDisk (mem_enumeratePhysicalDisks hmem)⟩

/-- A partition. -/
theorem nameRight_false : ¬ ∀ files name, NameRight files name := by
  intro h
  have hwhole : WholeDisk (fun _ => none) ("sd".toList ++ "a1".toList) := (h (fun _ => none) "sda1".toList).recognized.1 (by decide)
  obtain ⟨hletters, -⟩ := wholeDisk_append (by decide) hwhole
  exact absurd ((hletters (by decide)).2 '1' (by decide)) (by decide)

end LinuxDisks

end Anylinuxfs
