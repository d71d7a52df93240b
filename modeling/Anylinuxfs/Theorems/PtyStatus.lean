import Anylinuxfs.Lemmas.Label

/-!
# The status that the console gives

One status is sent for every console on which the server reports readiness at most once. It says what the tags before that report
said, or, when there is none, what the last exit code was.
-/

namespace Anylinuxfs

namespace PtyReader

/-! ## What the lines say -/

/-- `<anylinuxfs-exit-code`. -/
def exitCodeTag : List Char := "<anylinuxfs-exit-code".toList

/-- `<anylinuxfs-type`. -/
def typeTag : List Char := "<anylinuxfs-type".toList

/-- `<anylinuxfs-mount:changed-to-ro>`. -/
def changedToRoTag : List Char := "<anylinuxfs-mount:changed-to-ro>".toList

/-- `<anylinuxfs-nfs-export`. -/
def exportTag : List Char := "<anylinuxfs-nfs-export".toList

/-- The server reports that it is ready. -/
def isReady (line : List Char) : Bool := (findFrom readyText line).isSome

/-- A line has a tag: the first tag on it starts so, whatever stands before it. -/
def carries (tag line : List Char) : Bool := tag.isPrefixOf (tagged line)

/-- The value of the tag on a line. -/
def value (line : List Char) : Option (List Char) := parseVmTagValue (tagged line)

/-- The value of the last such tag. -/
def lastValue (tag : List Char) (lines : List (List Char)) : Option (List Char) :=
  (lines.filter (carries tag)).getLast?.bind value

/-- What a status has to say about the lines that were read. -/
inductive Tells (lines : List (List Char)) : Sent → Prop
  /-- Readiness, with what the tags before it said. -/
  | ready {before after : List (List Char)} {report : List Char} {state : NfsReadyState} (split : lines = before ++ report :: after)
      (reported : isReady report = true) (fslabel : state.fslabel = lastValue labelTag before)
      (fstype : state.fstype = lastValue typeTag before)
      (changedToRo : state.changedToRo = true ↔ ∃ line ∈ before, carries changedToRoTag line = true)
      (sorted : state.exports.Pairwise (· < ·))
      (exports : ∀ path, path ∈ state.exports ↔ ∃ line ∈ before, carries exportTag line = true ∧ value line = some path) :
      Tells lines (.nfsReady state)
  /-- Failure, with the last exit code. -/
  | failed (unreported : ∀ line ∈ lines, isReady line = false) :
      Tells lines (.nfsFailed ((lastValue exitCodeTag lines).bind parseI32))

/-! ## One line -/

theorem carries_iff {tag line : List Char} : carries tag line = true ↔ tag <+: tagged line := List.isPrefixOf_iff_prefix

/-- A line that is a tag with a value carries the tag, and the value is this value. -/
theorem value_tagLine {tag v eol : List Char} (hopener : tagOpener <+: tag) (hcolon : ':' ∉ tag)
    (hv : ∀ c ∈ v.head?, isWhitespace c = false) (heol : ∀ c ∈ eol, isWhitespace c = true) :
    carries tag (tag ++ ':' :: (v ++ ['>'] ++ eol)) = true ∧ value (tag ++ ':' :: (v ++ ['>'] ++ eol)) = some v := by
  obtain ⟨htag, hvalue⟩ := parse_tagLine hopener hcolon hv heol
  exact ⟨carries_iff.2 htag, hvalue⟩

/-- What one line does to the variables that a status is made of. -/
def hear (s : State) (line : List Char) : State where
  nfsReady := s.nfsReady
  fslabel := if carries labelTag line then value line else s.fslabel
  fstype := if carries typeTag line then value line else s.fstype
  changedToRo := if carries changedToRoTag line then true else s.changedToRo
  exitCode := if carries exitCodeTag line then (value line).bind parseI32 else s.exitCode
  exports := if carries exportTag line then (value line).elim s.exports (setInsert · s.exports) else s.exports

/-- The tags that a status is made of. -/
def statusTags : List (List Char) := [exitCodeTag, labelTag, typeTag, changedToRoTag, exportTag]

/-- A line has no other tag of a status than the first one on it. -/
theorem carries_eq_false {tag other line : List Char} (h : tag <+: tagged line) (hapart : ¬ other <+: tag ∧ ¬ tag <+: other) :
    carries other line = false :=
  isPrefixOf_eq_false h hapart.1 hapart.2

/-- A line with one of these tags has none of the others. -/
theorem carries_eq_decide {tag line : List Char} (htag : tag ∈ statusTags) (h : carries tag line = true) :
    ∀ other ∈ statusTags, carries other line = decide (tag = other) := by
  have hapart : ∀ tag ∈ statusTags, ∀ other ∈ statusTags, tag = other ∨ (¬ other <+: tag ∧ ¬ tag <+: other) := by decide
  intro other hother
  rcases hapart tag htag other hother with rfl | hne
  · rw [h, decide_eq_true rfl]
  · have hneq : tag ≠ other := fun heq => hne.1 (heq ▸ List.prefix_refl _)
    rw [carries_eq_false (carries_iff.1 h) hne, decide_eq_false hneq]

/-- A line without these tags changes nothing. -/
theorem hear_eq_self (s : State) {line : List Char} (h : ∀ tag ∈ statusTags, carries tag line = false) : hear s line = s := by
  simp only [statusTags, List.forall_mem_cons] at h
  obtain ⟨hexit, hlabel, htype, hro, hexport, -⟩ := h
  simp [hear, hexit, hlabel, htype, hro, hexport]

/-- A line with one of these tags changes what the tag is about. -/
theorem hear_of_carries (s : State) {tag line : List Char} (htag : tag ∈ statusTags) (h : carries tag line = true) :
    hear s line =
      { s with
        fslabel := if tag = labelTag then value line else s.fslabel
        fstype := if tag = typeTag then value line else s.fstype
        changedToRo := if tag = changedToRoTag then true else s.changedToRo
        exitCode := if tag = exitCodeTag then (value line).bind parseI32 else s.exitCode
        exports := if tag = exportTag then (value line).elim s.exports (setInsert · s.exports) else s.exports } := by
  have heq := carries_eq_decide htag h
  simp only [statusTags, List.forall_mem_cons] at heq
  obtain ⟨hexit, hlabel, htype, hro, hexport, -⟩ := heq
  simp only [hear, hexit, hlabel, htype, hro, hexport, decide_eq_true_eq]

/-- The variables are those after the line was heard, and no status is sent. -/
def HearsOnly (s : State) (line : List Char) (r : State × List Sent) : Prop := r.1 = hear s line ∧ r.2.filter Sent.isStatus = []

theorem HearsOnly.ite {s : State} {line : List Char} {c : Prop} [Decidable c] {r r' : State × List Sent}
    (h : c → HearsOnly s line r) (h' : ¬ c → HearsOnly s line r') : HearsOnly s line (if c then r else r') := by
  by_cases hc : c
  · rw [if_pos hc]
    exact h hc
  · rw [if_neg hc]
    exact h' hc

/-- A line that does not report readiness is heard, and no status is sent for it. -/
theorem next_of_unreported (verbose : Bool) (s : State) {line : List Char} (h : isReady line = false) :
    HearsOnly s line (next verbose s line) := by
  have hready : ¬ (findFrom readyText line).isSome = true := Bool.eq_false_iff.1 h
  rw [next, if_neg hready]
  refine .ite (fun hevents => ?_) fun _ => ?_
  · have hapart : ∀ tag ∈ statusTags, ¬ tag <+: "<anylinuxfs-vmproxy-ready>".toList ∧
      ¬ "<anylinuxfs-vmproxy-ready>".toList <+: tag := by decide
    have hnone : ∀ tag ∈ statusTags, carries tag line = false := fun tag htag =>
      carries_eq_false (List.isPrefixOf_iff_prefix.1 hevents) (hapart tag htag)
    exact ⟨(hear_eq_self s hnone).symm, rfl⟩
  refine .ite (fun hexit => ?_) fun hexit => ?_
  · exact ⟨(hear_of_carries s (by decide : exitCodeTag ∈ statusTags) hexit).symm, rfl⟩
  refine .ite (fun hlabel => ?_) fun hlabel => ?_
  · exact ⟨(hear_of_carries s (by decide : labelTag ∈ statusTags) hlabel).symm, rfl⟩
  refine .ite (fun htype => ?_) fun htype => ?_
  · exact ⟨(hear_of_carries s (by decide : typeTag ∈ statusTags) htype).symm, rfl⟩
  refine .ite (fun hro => ?_) fun hro => ?_
  · exact ⟨(hear_of_carries s (by decide : changedToRoTag ∈ statusTags) hro).symm, rfl⟩
  refine .ite (fun hexport => ?_) fun hexport => ?_
  · rw [HearsOnly, hear_of_carries s (by decide : exportTag ∈ statusTags) hexport]
    have hvalue : parseVmTagValue (tagged line) = value line := rfl
    rw [hvalue]
    cases value line with
    | none => exact ⟨rfl, rfl⟩
    | some path => exact ⟨rfl, rfl⟩
  have hnone : ∀ tag ∈ statusTags, carries tag line = false := by
    simp only [statusTags, List.forall_mem_cons]
    exact ⟨Bool.eq_false_iff.2 hexit, Bool.eq_false_iff.2 hlabel, Bool.eq_false_iff.2 htype, Bool.eq_false_iff.2 hro,
      Bool.eq_false_iff.2 hexport, fun _ h => absurd h List.not_mem_nil⟩
  -- what is left is about the prompts and the log
  have hself : s = hear s line := (hear_eq_self s hnone).symm
  exact .ite (fun _ => ⟨hself, rfl⟩) fun _ => .ite (fun _ => ⟨hself, rfl⟩) fun _ => .ite (fun _ => ⟨hself, rfl⟩) fun _ =>
    .ite (fun _ => ⟨hself, rfl⟩) fun _ => ⟨hself, rfl⟩

/-! ## The variables of the loop -/

/-- The variables hold what the lines said, and readiness was not reported yet. -/
structure Heard (lines : List (List Char)) (s : State) : Prop where
  unreported : s.nfsReady = false
  fslabel : s.fslabel = lastValue labelTag lines
  fstype : s.fstype = lastValue typeTag lines
  changedToRo : s.changedToRo = true ↔ ∃ line ∈ lines, carries changedToRoTag line = true
  exitCode : s.exitCode = (lastValue exitCodeTag lines).bind parseI32
  sorted : s.exports.Pairwise (· < ·)
  exports : ∀ path, path ∈ s.exports ↔ ∃ line ∈ lines, carries exportTag line = true ∧ value line = some path

theorem Heard.nil : Heard [] {} where
  unreported := rfl
  fslabel := rfl
  fstype := rfl
  changedToRo := by simp
  exitCode := rfl
  sorted := .nil
  exports := by simp

theorem lastValue_concat (tag : List Char) (lines : List (List Char)) (line : List Char) :
    lastValue tag (lines ++ [line]) = if carries tag line then value line else lastValue tag lines := by
  unfold lastValue
  by_cases h : carries tag line = true
  · simp [h]
  · simp [h]

/-- The exports that one line adds. -/
theorem mem_hear_exports {s : State} {line path : List Char} :
    path ∈ (hear s line).exports ↔ path ∈ s.exports ∨ (carries exportTag line = true ∧ value line = some path) := by
  unfold hear
  by_cases h : carries exportTag line = true
  · cases hvalue : value line with
    | none => simp [h]
    | some p => simp [h, mem_setInsert_iff, or_comm, eq_comm]
  · simp [h]

/-- One line is heard. -/
theorem Heard.next {lines : List (List Char)} {s : State} (h : Heard lines s) (line : List Char) :
    Heard (lines ++ [line]) (hear s line) where
  unreported := h.unreported
  fslabel := by rw [lastValue_concat, ← h.fslabel]; rfl
  fstype := by rw [lastValue_concat, ← h.fstype]; rfl
  changedToRo := by
    by_cases hro : carries changedToRoTag line = true
    · simp [hear, hro]
    · simp [hear, hro, h.changedToRo]
  exitCode := by
    rw [lastValue_concat]
    by_cases hexit : carries exitCodeTag line = true
    · simp [hear, hexit]
    · simp [hear, hexit, h.exitCode]
  sorted := by
    unfold hear
    by_cases hexport : carries exportTag line = true
    · cases value line with
      | none => simpa [hexport] using h.sorted
      | some path => simpa [hexport] using pairwise_setInsert path h.sorted
    · simpa [hexport] using h.sorted
  exports path := by
    rw [mem_hear_exports, h.exports]
    simp [or_and_right, exists_or]

theorem Heard.foldl {lines rest : List (List Char)} {s : State} (h : Heard lines s) : Heard (lines ++ rest) (rest.foldl hear s) := by
  induction rest generalizing lines s with
  | nil => rwa [List.append_nil]
  | cons line rest ih =>
    rw [List.foldl_cons, List.append_cons]
    exact ih (h.next line)

theorem nfsReady_foldl_hear (lines : List (List Char)) (s : State) : (lines.foldl hear s).nfsReady = s.nfsReady := by
  induction lines generalizing s with
  | nil => rfl
  | cons line lines ih => rw [List.foldl_cons, ih, hear]

/-! ## The lines of a console -/

theorem runReads_cons (verbose : Bool) (s : State) {line : List Char} (h : line ≠ []) (reads : List (Option (List Char))) :
    runReads verbose s (some line :: reads) = (next verbose s line).2 ++ runReads verbose (next verbose s line).1 reads := by
  cases line with
  | nil => exact absurd rfl h
  | cons c line => rfl

/-- At the end, failure is sent unless readiness was reported. -/
theorem runReads_ended (verbose : Bool) (s : State) {ended : Option (List Char)} (h : ended = none ∨ ended = some []) :
    runReads verbose s [ended] = if s.nfsReady then [] else [.nfsFailed s.exitCode] := by
  rcases h with rfl | rfl
  · rfl
  · rfl

/-- Lines that do not report readiness are heard, and no status is sent for them. -/
theorem runReads_unreported (verbose : Bool) (s : State) {lines : List (List Char)} (hne : ∀ line ∈ lines, line ≠ [])
    (h : ∀ line ∈ lines, isReady line = false) :
    (runReads verbose s (lines.map some)).filter Sent.isStatus = [] ∧ ∀ reads, runReads verbose s (lines.map some ++ reads) =
      runReads verbose s (lines.map some) ++ runReads verbose (lines.foldl hear s) reads := by
  induction lines generalizing s with
  | nil => exact ⟨rfl, fun _ => rfl⟩
  | cons line lines ih =>
    have hline : line ≠ [] := hne line List.mem_cons_self
    obtain ⟨hstate, hsent⟩ := next_of_unreported verbose s (h line List.mem_cons_self)
    obtain ⟨hfilter, hrun⟩ := ih (hear s line) (fun l hl => hne l (List.mem_cons_of_mem _ hl))
      fun l hl => h l (List.mem_cons_of_mem _ hl)
    rw [List.map_cons, runReads_cons verbose s hline, hstate]
    refine ⟨by rw [List.filter_append, hsent, hfilter, List.nil_append], fun reads => ?_⟩
    rw [List.cons_append, runReads_cons verbose s hline, hstate, hrun, List.append_assoc, List.foldl_cons]

/-- What is sent for a console on which readiness is not reported. -/
theorem runReads_failed (verbose : Bool) {lines : List (List Char)} {ended : Option (List Char)} (hne : ∀ line ∈ lines, line ≠ [])
    (hended : ended = none ∨ ended = some []) (h : ∀ line ∈ lines, isReady line = false) :
    runReads verbose {} (lines.map some ++ [ended]) =
      runReads verbose {} (lines.map some) ++ [.nfsFailed ((lastValue exitCodeTag lines).bind parseI32)] := by
  have hheard : Heard lines (lines.foldl hear {}) := Heard.nil.foldl
  rw [(runReads_unreported verbose {} hne h).2, runReads_ended verbose _ hended, hheard.unreported, hheard.exitCode]
  rfl

/-- What is sent for a console on which one line reports readiness. -/
theorem runReads_reported (verbose : Bool) {before after : List (List Char)} {report : List Char} {ended : Option (List Char)}
    (hne : ∀ line ∈ before ++ report :: after, line ≠ []) (hended : ended = none ∨ ended = some [])
    (hreport : isReady report = true) (hbefore : ∀ line ∈ before, isReady line = false)
    (hafter : ∀ line ∈ after, isReady line = false) :
    ∃ state, (runReads verbose {} ((before ++ report :: after).map some ++ [ended])).filter Sent.isStatus = [.nfsReady state] ∧
      Tells (before ++ report :: after) (.nfsReady state) := by
  obtain ⟨hnebefore, hne⟩ := List.forall_mem_append.1 hne
  obtain ⟨hnereport, hneafter⟩ := List.forall_mem_cons.1 hne
  obtain ⟨hsent, hrun⟩ := runReads_unreported verbose {} hnebefore hbefore
  have hheard : Heard before (before.foldl hear {}) := Heard.nil.foldl
  generalize before.foldl hear {} = s at hrun hheard
  have hnext : next verbose s report = ({ s with fslabel := none, fstype := none, nfsReady := true },
      [.nfsReady ⟨s.fslabel, s.fstype, s.changedToRo, s.exports⟩]) := by
    rw [next, if_pos (show (findFrom readyText report).isSome = true from hreport)]
  obtain ⟨hsentAfter, hrunAfter⟩ := runReads_unreported verbose { s with fslabel := none, fstype := none, nfsReady := true }
    hneafter hafter
  refine ⟨⟨s.fslabel, s.fstype, s.changedToRo, s.exports⟩, ?_, .ready rfl hreport hheard.fslabel hheard.fstype hheard.changedToRo
    hheard.sorted hheard.exports⟩
  rw [List.map_append, List.append_assoc, hrun, List.map_cons, List.cons_append, runReads_cons verbose s hnereport, hnext,
    hrunAfter, runReads_ended verbose _ hended, nfsReady_foldl_hear]
  rw [if_pos rfl, List.append_nil, List.filter_append, List.filter_append, hsent, hsentAfter]
  rfl

/-! ## One status -/

/-- A console on which readiness is reported at most once, read until it ends or fails, gives exactly one status, which tells what
the lines said. Failure is sent after all that the lines gave. -/
theorem status_of_console (verbose : Bool) {lines : List (List Char)} {ended : Option (List Char)} (hne : ∀ line ∈ lines, line ≠ [])
    (hended : ended = none ∨ ended = some []) (honce : lines.countP isReady ≤ 1) :
    ∃ status, (runReads verbose {} (lines.map some ++ [ended])).filter Sent.isStatus = [status] ∧ Tells lines status ∧
      ((∀ line ∈ lines, isReady line = false) →
        runReads verbose {} (lines.map some ++ [ended]) = runReads verbose {} (lines.map some) ++ [status]) := by
  by_cases hready : ∃ line ∈ lines, isReady line = true
  · obtain ⟨report, hmem, hreport⟩ := hready
    obtain ⟨before, after, rfl⟩ := List.append_of_mem hmem
    rw [List.countP_append, List.countP_cons_of_pos hreport] at honce
    have hbefore : ∀ line ∈ before, isReady line = false := fun line hline => by
      simpa using List.countP_eq_zero.1 (by omega : before.countP isReady = 0) line hline
    have hafter : ∀ line ∈ after, isReady line = false := fun line hline => by
      simpa using List.countP_eq_zero.1 (by omega : after.countP isReady = 0) line hline
    obtain ⟨state, hsent, htells⟩ := runReads_reported verbose hne hended hreport hbefore hafter
    refine ⟨.nfsReady state, hsent, htells, fun hnone => ?_⟩
    rw [hnone report hmem] at hreport
    exact absurd hreport Bool.false_ne_true
  · have hnone : ∀ line ∈ lines, isReady line = false := fun line hline =>
      Bool.eq_false_iff.2 fun hreport => hready ⟨line, hline, hreport⟩
    have hrun := runReads_failed verbose hne hended hnone
    refine ⟨_, ?_, .failed hnone, fun _ => hrun⟩
    rw [hrun, List.filter_append, (runReads_unreported verbose {} hne hnone).1]
    rfl

/-- A console whose label comes twice, the first time behind other characters, before the report. -/
def relabelled : List (List Char) :=
  ["^@<anylinuxfs-label:a>\r\n".toList, "<anylinuxfs-label:b>\r\n".toList, readyText ++ "\r\n".toList]

theorem status_of_console_relabelled :
    ∃ status, (runReads false {} (relabelled.map some ++ [none])).filter Sent.isStatus = [status] ∧ Tells relabelled status ∧
      ((∀ line ∈ relabelled, isReady line = false) →
        runReads false {} (relabelled.map some ++ [none]) = runReads false {} (relabelled.map some) ++ [status]) :=
  status_of_console false (by decide) (.inl rfl) (by decide)

end PtyReader

end Anylinuxfs
