import Anylinuxfs.FreeBsdImage

/-!
# A FreeBSD image that is accepted is complete

What every command keeps, wherever it is cut short: an image that is taken to be initialized is complete, unless an initialization
over an image of the current version did not come to its end. Then the image stays incomplete until it is removed or made anew.
-/

namespace Anylinuxfs

open Interact (Prog)

namespace FreeBsdImage

variable {env : Env} {d : Dir} {mtime : Exec → Nat}

/-! ## The invariant -/

/-- No program is recorded to be newer than it is in `libexec`, and one that is recorded to be as new as that is so in a disk image
that is set up. -/
def Recorded (mtime : Exec → Nat) (d : Dir) : Prop :=
  ∀ exec t, d.mtimes exec = some (some t) →
    t ≤ mtime exec ∧ (t = mtime exec → ∀ k, d.disk = some k → k.state = .setUp → k.given exec = mtime exec)

/-- What holds between the commands. -/
structure Sound (mtime : Exec → Nat) (d : Dir) : Prop where
  recorded : Recorded mtime d
  complete : d.accepted = true → d.Complete

theorem Dir.UpToDate.complete (h : d.UpToDate mtime) : d.Complete := by
  obtain ⟨hkernel, k, hdisk, hstate, -⟩ := h
  exact ⟨hkernel, k, hdisk, hstate⟩

/-- In an image that is up to date only the recorded times matter. -/
theorem Dir.UpToDate.recorded (h : d.UpToDate mtime) (ht : ∀ exec t, d.mtimes exec = some (some t) → t ≤ mtime exec) :
    Recorded mtime d := by
  obtain ⟨-, k, hdisk, -, hgiven⟩ := h
  refine fun exec t hmem => ⟨ht exec t hmem, fun _ k' hk' _ => ?_⟩
  rw [hdisk] at hk'
  cases hk'
  rw [hgiven]

/-- The programs in `libexec` may get newer. -/
theorem Recorded.mono {mtime' : Exec → Nat} (h : Recorded mtime d) (hle : ∀ exec, mtime exec ≤ mtime' exec) :
    Recorded mtime' d := by
  intro exec t hmem
  obtain ⟨ht, hsame⟩ := h exec t hmem
  refine ⟨ht.trans (hle exec), fun heq k hk hstate => ?_⟩
  have hmtime : mtime exec = mtime' exec := le_antisymm (hle exec) (heq ▸ ht)
  rw [hsame (heq.trans hmtime.symm) k hk hstate, hmtime]

/-- How a command may leave the directory `d`. -/
def Outcome (env : Env) (d : Dir) (w : World) : Prop :=
  Recorded env.mtime w.dir ∧
    ((d.versionMatches = true ∧ .extractKernelBundle ∈ w.calls ∧ .writeRootfsVer ∉ w.calls) ∨
      (w.dir.accepted = true → w.dir.Complete))

/-! ## Stages -/

/-- A condition that a stage leaves alone. -/
def StageFree (K : World → Prop) : Prop := ∀ w what, K w → K ⟨w.dir, w.calls ++ [.stage what]⟩

theorem durable_attempt {K I : World → Prop} (hI : ∀ w, K w → I w) (hK : StageFree K) (what : Stage) :
    (attempt what).Durable (impl env) K (fun _ => K) (fun _ => I) I :=
  Prog.Durable.require (Prog.Durable.perform hI fun w hw => ⟨hI _ (hK w what hw), fun _ => hK w what hw⟩)

theorem durable_attemptAll {K I : World → Prop} (hI : ∀ w, K w → I w) (hK : StageFree K) (stages : List Stage) :
    (attemptAll stages).Durable (impl env) K (fun _ => K) (fun _ => I) I := by
  induction stages with
  | nil => exact Prog.Durable.pure fun _ hw => hw
  | cons what stages ih => exact (durable_attempt hI hK what).bind fun _ => ih

/-! ## The modification times -/

/-- The image is up to date, whatever has been recorded of it. -/
def Filled (env : Env) (w : World) : Prop :=
  w.dir.UpToDate env.mtime ∧ ∀ exec t, w.dir.mtimes exec = some (some t) → t ≤ env.mtime exec

theorem Filled.outcome {w : World} (h : Filled env w) : Outcome env d w :=
  ⟨h.1.recorded h.2, .inr fun _ => h.1.complete⟩

/-- A time is recorded, or the file is damaged. -/
theorem Filled.update {w : World} (h : Filled env w) (exec : Exec) (content : Option Nat) (calls : List Call)
    (hcontent : ∀ t, content = some t → t ≤ env.mtime exec) :
    Filled env ⟨{ w.dir with mtimes := Function.update w.dir.mtimes exec (some content) }, calls⟩ := by
  refine ⟨h.1, fun exec' t ht => ?_⟩
  change Function.update w.dir.mtimes exec (some content) exec' = some (some t) at ht
  by_cases heq : exec' = exec
  · subst heq
    rw [Function.update_self] at ht
    exact hcontent t (Option.some.inj ht)
  · rw [Function.update_of_ne heq] at ht
    exact h.2 exec' t ht

/-- Recording a time keeps the image up to date. -/
theorem Filled.writeMtimeFile {w : World} (h : Filled env w) (exec : Exec) : Filled env (impl env (.writeMtimeFile exec) w).2 := by
  simp only [impl, step]
  split
  · exact h.update exec (some (env.mtime exec)) _ fun t ht => (Option.some.inj ht).symm.le
  · split
    · exact h.update exec none _ fun t ht => by cases ht
    · exact h

theorem durable_writeMtimes {K : World → Prop} (hK : ∀ w exec, K w → K (impl env (.writeMtimeFile exec) w).2) (execs : List Exec) :
    (writeMtimes execs).Durable (impl env) K (fun _ => K) (fun _ => K) K := by
  induction execs with
  | nil => exact Prog.Durable.pure fun _ hw => hw
  | cons exec execs ih =>
    have hwrite : (sys (.writeMtimeFile exec) >>= orFail).Durable (impl env) K (fun _ => K) (fun _ => K) K :=
      Prog.Durable.require (Prog.Durable.perform (fun _ hw => hw) fun w hw => ⟨hK w exec hw, fun _ => hK w exec hw⟩)
    exact hwrite.bind fun _ => ih

theorem durable_writeMtimeFiles {K : World → Prop} (hstage : StageFree K)
    (hK : ∀ w exec, K w → K (impl env (.writeMtimeFile exec) w).2) (execs : List Exec) :
    (writeMtimeFiles execs).Durable (impl env) K (fun _ => K) (fun _ => K) K :=
  (durable_attempt (fun _ hw => hw) hstage _).bind fun _ => durable_writeMtimes hK execs

/-- The last part of an upgrade, and nearly the last one of an installation. -/
theorem durable_writeMtimeFiles_filled (execs : List Exec) :
    (writeMtimeFiles execs).Durable (impl env) (Filled env) (fun _ => Filled env) (fun _ => Outcome env d) (Outcome env d) :=
  (durable_writeMtimeFiles (fun _ _ hw => hw) (fun _ exec hw => hw.writeMtimeFile exec) execs).conseq (fun _ hw => hw)
    (fun _ _ hw => hw) (fun _ _ hw => hw.outcome) fun _ hw => hw.outcome

/-! ## The upgrade -/

/-- The time that is recorded for a program. -/
def Dir.recorded (d : Dir) (exec : Exec) : Nat :=
  match d.mtimes exec with
  | some (some t) => t
  | _ => 0

/-- What can be read of the file of a program is what is recorded. -/
theorem readMtimeFile_answer {w : World} {exec : Exec} {content : Option Nat}
    (h : (impl env (.readMtimeFile exec) w).1 = .ok content) : content.getD 0 = w.dir.recorded exec := by
  simp only [impl, step] at h
  unfold Dir.recorded
  split at h
  · next hnone =>
    cases h
    rw [hnone]
    rfl
  · next content' hsome =>
    split at h
    · cases h
      rw [hsome]
      cases content <;> rfl
    · cases h

/-- What is to be upgraded: the programs that are newer than what is recorded of them. -/
theorem durable_toUpgrade (execs : List Exec) {I : World → Prop} (hI : ∀ w, w.dir = d → I w) :
    (toUpgrade execs).Durable (impl env) (fun w => w.dir = d)
      (fun es w => w.dir = d ∧ es = execs.filter fun exec => d.recorded exec < env.mtime exec) (fun _ => I) I := by
  induction execs with
  | nil => exact Prog.Durable.pure fun w hw => ⟨hw, rfl⟩
  | cons exec execs ih =>
    refine Prog.Durable.bind (M := fun answer w => w.dir = d ∧ ∀ m, answer = some m → m = env.mtime exec)
      (Prog.Durable.perform hI fun w hw => ⟨hw, fun m hm => ?_⟩) fun answer => ?_
    · simp only [impl, step] at hm
      split at hm
      · exact (Option.some.inj hm).symm
      · cases hm
    cases answer with
    | none => exact Prog.Durable.fail fun w hw => hI w hw.1
    | some m =>
      refine Prog.Durable.bind (M := fun answer w => w.dir = d ∧ m = env.mtime exec ∧ ∀ t, answer = .ok t → t.getD 0 = d.recorded exec)
        (Prog.Durable.perform (fun w hw => hI w hw.1) fun w hw => ?_) fun answer => ?_
      · exact ⟨hw.1, hw.2 m rfl, fun t ht => hw.1 ▸ readMtimeFile_answer ht⟩
      cases answer with
      | error e => exact Prog.Durable.fail fun w hw => hI w hw.1
      | ok t =>
        have hrest := ih.frame (φ := m = env.mtime exec ∧ t.getD 0 = d.recorded exec)
        refine Prog.Durable.bind (hrest.conseq (fun w hw => ⟨hw.1, hw.2.1, hw.2.2 t rfl⟩) (fun _ _ hw => hw) (fun _ _ hw => hw)
          fun _ hw => hw) fun es => Prog.Durable.pure fun w hw => ?_
        obtain ⟨⟨hdir, rfl⟩, rfl, ht⟩ := hw
        rw [ht, List.filter_cons]
        exact ⟨hdir, by simp⟩

/-- A program that is not newer than what is recorded of it is the one in the image. -/
theorem Recorded.current (h : Recorded env.mtime d) (hpos : ∀ exec, 0 < env.mtime exec) {exec : Exec}
    (hexec : ¬d.recorded exec < env.mtime exec) {k : Disk} (hk : d.disk = some k) (hstate : k.state = .setUp) :
    k.given exec = env.mtime exec := by
  unfold Dir.recorded at hexec
  split at hexec
  · next t hsome =>
    obtain ⟨ht, hsame⟩ := h exec t hsome
    exact hsame (le_antisymm ht (Nat.not_lt.1 hexec)) k hk hstate
  · exact absurd (hpos exec) hexec

theorem Recorded.le (h : Recorded env.mtime d) {exec : Exec} {t : Nat} (ht : d.mtimes exec = some (some t)) : t ≤ env.mtime exec :=
  (h exec t ht).1

/-- The programs that an initialized image has to be upgraded with. -/
def Dir.outdated (d : Dir) (env : Env) : List Exec := [Exec.init, .vmproxy].filter fun exec => d.recorded exec < env.mtime exec

theorem Dir.mem_outdated {exec : Exec} : exec ∈ d.outdated env ↔ d.recorded exec < env.mtime exec := by
  cases exec <;> simp [outdated]

/-- What the VM that upgrades the programs leaves if it ends with status zero. -/
def Dir.upgraded (d : Dir) (env : Env) : Dir := { d with disk := d.disk.map (Disk.upgrade (d.outdated env) env.mtime) }

/-- An upgrade that succeeds brings a complete image up to date. -/
theorem filled_upgraded (h : Recorded env.mtime d) (hpos : ∀ exec, 0 < env.mtime exec) (hcomplete : d.Complete) (calls : List Call) :
    Filled env ⟨d.upgraded env, calls⟩ := by
  obtain ⟨hkernel, k, hdisk, hstate⟩ := hcomplete
  unfold Dir.upgraded
  rw [hdisk, Option.map_some]
  refine ⟨⟨hkernel, _, rfl, hstate, funext fun exec => ?_⟩, fun exec t ht => h.le ht⟩
  change (if exec ∈ d.outdated env then env.mtime exec else k.given exec) = env.mtime exec
  by_cases hnew : d.recorded exec < env.mtime exec
  · exact if_pos (Dir.mem_outdated.2 hnew)
  · rw [if_neg (mt Dir.mem_outdated.1 hnew)]
    exact h.current hpos hnew hdisk hstate

/-- A complete image is brought up to date, and stays complete whatever happens. -/
theorem durable_upgrade (h : Recorded env.mtime d) (hpos : ∀ exec, 0 < env.mtime exec) (hcomplete : d.Complete) :
    upgrade.Durable (impl env) (fun w => w.dir = d) (fun _ => Filled env) (fun _ => Outcome env d) (Outcome env d) := by
  have hsame : ∀ w : World, w.dir = d → Outcome env d w := fun w hw => ⟨hw ▸ h, .inr fun _ => hw ▸ hcomplete⟩
  refine (durable_toUpgrade [.init, .vmproxy] hsame).bind fun execs => ?_
  by_cases hempty : execs = []
  · rw [if_neg (not_not.2 hempty)]
    refine Prog.Durable.pure fun w hw => ?_
    obtain ⟨rfl, hexecs⟩ := hw
    obtain ⟨hkernel, k, hdisk, hstate⟩ := hcomplete
    refine ⟨⟨hkernel, k, hdisk, hstate, funext fun exec => h.current hpos (fun hnew => ?_) hdisk hstate⟩, fun exec t ht => h.le ht⟩
    have hmem : exec ∈ execs := hexecs ▸ Dir.mem_outdated.2 hnew
    rw [hempty] at hmem
    cases hmem
  · rw [if_pos hempty]
    have hvm : (sys (.runUpgradeVm execs) >>= orFail).Durable (impl env) (fun w => w.dir = d ∧ execs = d.outdated env)
        (fun _ => Filled env) (fun _ => Outcome env d) (Outcome env d) := by
      refine Prog.Durable.require (Prog.Durable.perform (fun w hw => hsame w hw.1) fun w hw => ?_)
      obtain ⟨rfl, rfl⟩ := hw
      simp only [impl, step]
      split
      · have hnext := filled_upgraded h hpos hcomplete (w.calls ++ [.runUpgradeVm (w.dir.outdated env)])
        exact ⟨hnext.outcome, fun _ => hnext⟩
      · exact ⟨hsame _ rfl, fun hok => by cases hok⟩
    exact (durable_attemptAll (fun w hw => hsame w hw.1) (fun _ _ hw => hw) _).bind fun _ => hvm.bind fun _ =>
      durable_writeMtimeFiles_filled execs

/-! ## The installation -/

/-- The disk image is another one, or has got another state. -/
theorem Recorded.of_disk {d' : Dir} (h : Recorded mtime d) (hmtimes : d'.mtimes = d.mtimes)
    (hdisk : ∀ k, d'.disk = some k → k.state = .setUp → d.disk = some k ∨ k.given = mtime) : Recorded mtime d' := by
  intro exec t ht
  rw [hmtimes] at ht
  obtain ⟨hle, hsame⟩ := h exec t ht
  refine ⟨hle, fun heq k hk hstate => ?_⟩
  rcases hdisk k hk hstate with hold | hgiven
  · exact hsame heq k hold hstate
  · rw [hgiven]

/-- The image of the directory `d` is being replaced, and has come as far as `Phase` says. -/
structure Making (env : Env) (d : Dir) (Phase : Dir → Prop) (w : World) : Prop where
  extracted : .extractKernelBundle ∈ w.calls
  unwritten : .writeRootfsVer ∉ w.calls
  rootfsVer : w.dir.rootfsVer = d.rootfsVer
  recorded : Recorded env.mtime w.dir
  phase : Phase w.dir

variable {Phase Phase' : Dir → Prop}

/-- The version file is the last one that is written: until then either the image is not taken to be initialized, or one of the
current version is about to be lost. -/
theorem Making.outcome {w : World} (h : Making env d Phase w) : Outcome env d w := by
  refine ⟨h.recorded, ?_⟩
  by_cases hversion : d.versionMatches = true
  · exact .inl ⟨hversion, h.extracted, h.unwritten⟩
  · refine .inr fun haccepted => absurd ?_ hversion
    have hmatches : w.dir.versionMatches = true := by
      unfold Dir.accepted at haccepted
      exact (Bool.and_eq_true_iff.1 haccepted).2
    unfold Dir.versionMatches at hmatches ⊢
    rwa [h.rootfsVer] at hmatches

/-- One more call that leaves the version file alone. -/
theorem Making.next {w : World} (h : Making env d Phase w) {d' : Dir} {c : Call} (hc : c ≠ .writeRootfsVer)
    (hversion : d'.rootfsVer = w.dir.rootfsVer) (hrecorded : Recorded env.mtime d') (hphase : Phase' d') :
    Making env d Phase' ⟨d', w.calls ++ [c]⟩ where
  extracted := List.mem_append_left _ h.extracted
  unwritten hmem := by
    rcases List.mem_append.1 hmem with hold | hnew
    · exact h.unwritten hold
    · exact hc (List.mem_singleton.1 hnew).symm
  rootfsVer := hversion.trans h.rootfsVer
  recorded := hrecorded
  phase := hphase

theorem Making.stageFree : StageFree (Making env d Phase) :=
  fun _ _ hw => hw.next (fun h => by cases h) rfl hw.recorded hw.phase

/-- A directory whose image is not being replaced yet. -/
def Untouched (d : Dir) (w : World) : Prop := w.dir = d ∧ .writeRootfsVer ∉ w.calls

theorem Untouched.outcome (hd : Sound env.mtime d) {w : World} (h : Untouched d w) : Outcome env d w :=
  ⟨h.1 ▸ hd.recorded, .inr (h.1 ▸ hd.complete)⟩

theorem Untouched.next {w : World} (h : Untouched d w) {c : Call} (hc : c ≠ .writeRootfsVer) :
    Untouched d ⟨w.dir, w.calls ++ [c]⟩ := by
  refine ⟨h.1, fun hmem => ?_⟩
  rcases List.mem_append.1 hmem with hold | hnew
  · exact h.2 hold
  · exact hc (List.mem_singleton.1 hnew).symm

theorem Untouched.stageFree : StageFree (Untouched d) := fun _ _ hw => hw.next fun h => by cases h

/-- The bundle's extraction begins to replace the image. -/
theorem durable_extractKernelBundle (hd : Sound env.mtime d) :
    (sys .extractKernelBundle >>= orFail).Durable (impl env) (Untouched d)
      (fun _ => Making env d fun d' => d'.kernel = some .wholly) (fun _ => Outcome env d) (Outcome env d) := by
  refine Prog.Durable.require (Prog.Durable.perform (fun w hw => hw.outcome hd) fun w hw => ?_)
  have hnext : Making env d (fun d' => d'.kernel = some (if env.ok .extractKernelBundle then .wholly else .partly))
      (impl env .extractKernelBundle w).2 := by
    refine ⟨List.mem_append_right _ (List.mem_singleton_self _), (hw.next fun h => by cases h).2, ?_, ?_, rfl⟩
    · exact hw.1 ▸ rfl
    · exact (hw.1 ▸ hd.recorded : Recorded env.mtime w.dir).of_disk rfl fun k hk _ => .inl hk
  refine ⟨hnext.outcome, fun hok => ?_⟩
  change env.ok .extractKernelBundle = true at hok
  rw [hok] at hnext
  exact hnext

/-- The old disk image goes, if it can be removed. -/
theorem durable_removeDisk :
    (sys .removeDisk).Durable (impl env) (Making env d fun d' => d'.kernel = some .wholly)
      (fun _ => Making env d fun d' => d'.kernel = some .wholly) (fun _ => Outcome env d) (Outcome env d) := by
  refine Prog.Durable.perform (fun w hw => hw.outcome) fun w hw => ?_
  simp only [impl, step]
  split
  · exact hw.next (fun h => by cases h) rfl (hw.recorded.of_disk rfl fun k hk _ => by cases hk) hw.phase
  · exact hw.next (fun h => by cases h) rfl hw.recorded hw.phase

/-- A sparse file takes its place. -/
theorem durable_createDisk :
    (sys .createDisk >>= orFail).Durable (impl env) (Making env d fun d' => d'.kernel = some .wholly)
      (fun _ => Making env d fun d' => d'.kernel = some .wholly ∧ d'.disk.isSome = true) (fun _ => Outcome env d) (Outcome env d) := by
  refine Prog.Durable.require (Prog.Durable.perform (fun w hw => hw.outcome) fun w hw => ?_)
  have hrecorded : Recorded env.mtime { w.dir with disk := some (w.dir.disk.getD ⟨.blank, fun _ => 0⟩) } := by
    refine hw.recorded.of_disk rfl fun k hk hstate => .inl ?_
    cases hk
    cases hdisk : w.dir.disk with
    | none =>
      rw [hdisk] at hstate
      cases hstate
    | some k => rfl
  simp only [impl, step]
  split
  · have hnext : Making env d (fun d' => d'.kernel = some .wholly ∧ d'.disk.isSome = true)
        ⟨{ w.dir with disk := some (w.dir.disk.getD ⟨.blank, fun _ => 0⟩) }, w.calls ++ [.createDisk]⟩ :=
      hw.next (fun h => by cases h) rfl hrecorded ⟨hw.phase, rfl⟩
    exact ⟨hnext.outcome, fun _ => hnext⟩
  · next hnot =>
    have hfail : env.ok .createDisk = false := by
      cases hok : env.ok .createDisk with
      | false => rfl
      | true => exact absurd (by rw [hok]; rfl) hnot
    have hnext : Making env d (fun _ => True) ⟨w.dir, w.calls ++ [.createDisk]⟩ :=
      hw.next (fun h => by cases h) rfl hw.recorded trivial
    exact ⟨hnext.outcome, fun hok => by rw [hfail] at hok; cases hok⟩

/-- The bootstrap VM puts the programs into the disk image. -/
theorem durable_runBootstrapVm :
    (sys .runBootstrapVm >>= orFail).Durable (impl env)
      (Making env d fun d' => d'.kernel = some .wholly ∧ d'.disk.isSome = true)
      (fun _ => Making env d fun d' => d'.kernel = some .wholly ∧ ∃ k, d'.disk = some k ∧ k.given = env.mtime)
      (fun _ => Outcome env d) (Outcome env d) := by
  refine Prog.Durable.require (Prog.Durable.perform (fun w hw => hw.outcome) fun w hw => ?_)
  obtain ⟨hkernel, hsome⟩ := hw.phase
  obtain ⟨k, hk⟩ := Option.isSome_iff_exists.1 hsome
  have hrecorded : Recorded env.mtime (impl env .runBootstrapVm w).2.dir := by
    refine hw.recorded.of_disk rfl fun k' hk' hstate => ?_
    change w.dir.disk.map _ = some k' at hk'
    rw [hk] at hk'
    cases hk'
    split at hstate <;> cases hstate
  have hnext : Making env d (fun _ => True) (impl env .runBootstrapVm w).2 := hw.next (fun h => by cases h) rfl hrecorded trivial
  refine ⟨hnext.outcome, fun hok => { hnext with phase := ⟨hkernel, ⟨.bootstrapped, env.mtime⟩, ?_, rfl⟩ }⟩
  change env.ok .runBootstrapVm = true at hok
  change w.dir.disk.map _ = _
  rw [hk, hok]
  rfl

/-- With the second VM the image is complete. -/
theorem durable_runSetupVm :
    (sys .runSetupVm >>= orFail).Durable (impl env)
      (Making env d fun d' => d'.kernel = some .wholly ∧ ∃ k, d'.disk = some k ∧ k.given = env.mtime)
      (fun _ => Filled env) (fun _ => Outcome env d) (Outcome env d) := by
  refine Prog.Durable.require (Prog.Durable.perform (fun w hw => hw.outcome) fun w hw => ?_)
  obtain ⟨hkernel, k, hk, hgiven⟩ := hw.phase
  have hdisk : (impl env .runSetupVm w).2.dir.disk = some ⟨if env.ok .runSetupVm then .setUp else .partly, k.given⟩ := by
    change w.dir.disk.map _ = _
    rw [hk]
    rfl
  have hrecorded : Recorded env.mtime (impl env .runSetupVm w).2.dir := by
    refine hw.recorded.of_disk rfl fun k' hk' _ => .inr ?_
    rw [hdisk] at hk'
    cases hk'
    exact hgiven
  have hnext : Making env d (fun _ => True) (impl env .runSetupVm w).2 := hw.next (fun h => by cases h) rfl hrecorded trivial
  refine ⟨hnext.outcome, fun hok => ?_⟩
  change env.ok .runSetupVm = true at hok
  rw [hok] at hdisk
  exact ⟨⟨hkernel, _, hdisk, rfl, hgiven⟩, fun exec t ht => hrecorded.le ht⟩

/-- Only now the version file is written. -/
theorem durable_writeRootfsVer :
    (sys .writeRootfsVer).Durable (impl env) (Filled env) (fun _ => Filled env) (fun _ => Outcome env d) (Outcome env d) := by
  refine Prog.Durable.perform (fun w hw => hw.outcome) fun w hw => ?_
  simp only [impl, step]
  split
  · exact hw
  · split
    · exact hw
    · exact hw

/-- An installation that succeeds leaves an image that is up to date. -/
theorem durable_install (hd : Sound env.mtime d) (src : ImageSource) :
    (install src).Durable (impl env) (Untouched d) (fun _ => Filled env) (fun _ => Outcome env d) (Outcome env d) := by
  unfold install
  split
  · refine (durable_attempt (fun w hw => hw.outcome hd) Untouched.stageFree _).bind fun _ => ?_
    split
    · exact Prog.Durable.fail fun w hw => hw.outcome hd
    refine (durable_attemptAll (fun w hw => hw.outcome hd) Untouched.stageFree _).bind fun _ => ?_
    refine (durable_extractKernelBundle hd).bind fun _ => ?_
    refine (durable_attemptAll (fun w hw => hw.outcome) Making.stageFree _).bind fun _ => ?_
    refine durable_removeDisk.bind fun _ => durable_createDisk.bind fun _ => ?_
    refine (durable_attempt (fun w hw => hw.outcome) Making.stageFree _).bind fun _ => durable_runBootstrapVm.bind fun _ => ?_
    refine (durable_attempt (fun w hw => hw.outcome) Making.stageFree _).bind fun _ => durable_runSetupVm.bind fun _ => ?_
    refine durable_writeRootfsVer.bind fun _ => ?_
    refine (durable_writeMtimeFiles_filled _).bind fun _ => ?_
    exact Prog.Durable.perform (fun w hw => hw.outcome) fun w hw => hw
  · exact Prog.Durable.fail fun w hw => hw.outcome hd

/-! ## The commands -/

/-- A check of the directory. -/
theorem durable_check (hd : Sound env.mtime d) {P : Prop} {c : Call} (hc : c ≠ .writeRootfsVer)
    (hdir : ∀ w : World, (impl env c w).2.dir = w.dir) {R : c.Answer → Prop} (hR : ∀ w : World, w.dir = d → P → R (impl env c w).1) :
    (sys c).Durable (impl env) (fun w => Untouched d w ∧ P) (fun answer w => Untouched d w ∧ R answer) (fun _ => Outcome env d)
      (Outcome env d) := by
  refine Prog.Durable.perform (fun w hw => hw.1.outcome hd) fun w hw => ⟨?_, hR w hw.1.1 hw.2⟩
  exact ⟨(hdir w).trans hw.1.1, (hw.1.next hc).2⟩

/-- What holds after the three checks. -/
theorem Dir.accepted_of_checks (hfiles : d.kernel.isSome = true ∧ d.disk.isSome = true) (hversion : d.versionMatches = true) :
    d.accepted = true := by
  simp [accepted, hfiles, hversion]

/-- An initialization that succeeds leaves an image that is up to date. -/
theorem durable_initRootfs (hd : Sound env.mtime d) (hpos : ∀ exec, 0 < env.mtime exec) (src : ImageSource) (force : Bool) :
    (initRootfs src force).Durable (impl env) (Untouched d) (fun _ => Filled env) (fun _ => Outcome env d) (Outcome env d) := by
  unfold initRootfs
  split
  · exact Prog.Durable.fail fun w hw => hw.outcome hd
  split
  · exact durable_install hd src
  have hkernel := durable_check hd (P := True) (c := .kernelExists) (fun h => by cases h) (fun _ => rfl)
    (R := fun answer => answer = true → d.kernel.isSome = true) fun w hw _ => by rw [← hw]; exact id
  refine Prog.Durable.bind (hkernel.conseq (fun w hw => ⟨hw, trivial⟩) (fun _ _ hw => hw) (fun _ _ hw => hw) fun _ hw => hw)
    fun kernelExists => ?_
  refine Prog.Durable.bind (M := fun answer w => Untouched d w ∧ (answer = true → d.kernel.isSome = true ∧ d.disk.isSome = true))
    (Prog.Durable.andAlso (fun hyes => ?_) fun _ w hw => ⟨hw.1, fun h => by cases h⟩) fun requiredFilesExist => ?_
  · exact durable_check hd (fun h => by cases h) (fun _ => rfl) fun w hw hk hok => ⟨hk hyes, by rw [← hw]; exact hok⟩
  refine Prog.Durable.bind (M := fun answer w => Untouched d w ∧ (answer = true → d.accepted = true))
    (Prog.Durable.andAlso (fun hyes => ?_) fun _ w hw => ⟨hw.1, fun h => by cases h⟩) fun initialized => ?_
  · refine durable_check hd (fun h => by cases h) (fun _ => rfl) fun w hw hfiles hok => ?_
    exact Dir.accepted_of_checks (hfiles hyes) (hw ▸ (Bool.and_eq_true_iff.1 hok).2)
  cases initialized with
  | true =>
    intro w hw
    exact (durable_upgrade hd.recorded hpos (hd.complete (hw.2 rfl))) w hw.1.1
  | false => exact (durable_install hd src).conseq (fun w hw => hw.1) (fun _ _ hw => hw) (fun _ _ hw => hw) fun _ hw => hw

/-- What is still accepted while parts of it are removed has lost none of them. -/
theorem Dir.accepted_keep {kept : Entry → Bool} (h : (d.keep kept).accepted = true) :
    d.accepted = true ∧ (d.keep kept).kernel = d.kernel ∧ (d.keep kept).disk = d.disk := by
  have hempty : ¬trim [] = rootfsCurrentVersion := by decide
  by_cases hkernel : kept .kernel = true <;> by_cases hdisk : kept .disk = true <;> by_cases hversion : kept .rootfsVer = true <;>
    simp_all [accepted, keep, versionMatches]

/-- A removal, complete or not, takes parts of the image away. -/
theorem Sound.keep (hd : Sound mtime d) (kept : Entry → Bool) : Sound mtime (d.keep kept) := by
  constructor
  · intro exec t ht
    unfold Dir.keep at ht ⊢
    dsimp only at ht ⊢
    split at ht
    · refine ⟨(hd.recorded exec t ht).1, fun heq k hk => (hd.recorded exec t ht).2 heq k ?_⟩
      split at hk
      · exact hk
      · cases hk
    · cases ht
  · intro haccepted
    obtain ⟨hwas, hkernel, hdisk⟩ := Dir.accepted_keep haccepted
    unfold Dir.Complete
    rw [hkernel, hdisk]
    exact hd.complete hwas

theorem Sound.empty : Sound mtime {} where
  recorded _ _ h := by cases h
  complete h := by cases h

theorem Sound.outcome {w : World} (h : Sound env.mtime w.dir) : Outcome env d w := ⟨h.recorded, .inr h.complete⟩

/-- A removal keeps the invariant. -/
theorem durable_remove (hd : Sound env.mtime d) :
    remove.Durable (impl env) (Untouched d) (fun _ => Outcome env d) (fun _ => Outcome env d) (Outcome env d) := by
  refine (durable_attempt (fun w hw => hw.outcome hd) Untouched.stageFree _).bind fun _ => ?_
  refine Prog.Durable.require (Prog.Durable.perform (fun w hw => hw.outcome hd) fun w hw => ?_)
  simp only [impl, step]
  split
  · exact ⟨Sound.empty.outcome, fun _ => Sound.empty.outcome⟩
  · have hkept : Outcome env d ⟨w.dir.keep env.kept, w.calls ++ [.removeDirAll]⟩ := ((hw.1 ▸ hd : Sound env.mtime w.dir).keep _).outcome
    exact ⟨hkept, fun _ => hkept⟩

/-- Every command keeps the invariant, wherever it is cut short, unless it breaks the image. -/
theorem Sound.run {e : Event} (hd : Sound mtime d) (hle : ∀ exec, mtime exec ≤ e.env.mtime exec) (hpos : ∀ exec, 0 < e.env.mtime exec)
    (hwhole : ¬e.Breaks d) : Sound e.env.mtime (e.run d).2.dir := by
  have hnow : Sound e.env.mtime d := ⟨hd.recorded.mono hle, hd.complete⟩
  have hdurable : e.command.proc.Durable (impl e.env) (Untouched d) (fun _ => Outcome e.env d) (fun _ => Outcome e.env d)
      (Outcome e.env d) := by
    cases hcommand : e.command with
    | init src force =>
      exact (durable_initRootfs hnow hpos src force).conseq (fun _ hw => hw) (fun _ _ hw => hw.outcome) (fun _ _ hw => hw) fun _ hw => hw
    | remove => exact durable_remove hnow
  have hstart : Untouched d ⟨d, []⟩ := ⟨rfl, List.not_mem_nil⟩
  obtain ⟨hrecorded, hbreaks | hcomplete⟩ := hdurable.leaves hstart e.calls
  · exact absurd hbreaks hwhole
  · exact ⟨hrecorded, hcomplete⟩

/-- The invariant holds at every point of a history that breaks nothing. -/
theorem Sound.runAll {events rest : List Event} (hd : Sound mtime d) (h : Orderly d mtime (events ++ rest)) :
    ∃ mtime', Sound mtime' (runAll events d) ∧ Orderly (runAll events d) mtime' rest := by
  induction events generalizing d mtime with
  | nil => exact ⟨mtime, hd, h⟩
  | cons e events ih =>
    obtain ⟨hle, hpos, hwhole, hrest⟩ := h
    exact ih (hd.run hle hpos hwhole) hrest

theorem runAll_append (events rest : List Event) (d : Dir) : runAll (events ++ rest) d = runAll rest (runAll events d) := by
  induction events generalizing d with
  | nil => rfl
  | cons e events ih => exact ih _

/-! ## The results -/

/-- An image of the releases. -/
def sampleSource : ImageSource where
  baseDir := ['f']
  isoUrl := some ['i']
  ociUrl := some ['o']
  kernel := { bundleUrl := some ['k'] }
  osType := .freeBsd

/-- An initialization of it with programs of one age, in which some call may fail. -/
def sampleInit (force : Bool) (fails : Option Call) (calls : Nat) : Event where
  command := .init sampleSource force
  env := { mtime := fun _ => 1, ok := fun c => some c ≠ fails }
  calls := calls

/-- A sample history that begins with the empty directory is orderly if no initialization breaks the image. -/
theorem sample_orderly {e e' : Event} (he : e.env.mtime = fun _ => 1) (he' : e'.env.mtime = fun _ => 1) (hfirst : ¬e.Breaks {})
    (hsecond : ¬e'.Breaks (e.run {}).2.dir) : Orderly {} (fun _ => 0) [e, e'] := by
  refine ⟨fun _ => Nat.zero_le _, fun _ => ?_, hfirst, fun _ => ?_, fun _ => ?_, hsecond, trivial⟩
  · rw [he]
    exact Nat.one_pos
  · rw [he, he']
  · rw [he']
    exact Nat.one_pos

/-- After every history of commands of which none broke an image of the current version, each of them cut short anywhere, an image
that is taken to be initialized is complete. -/
theorem complete_of_accepted {events : List Event} (h : Orderly {} mtime events) (haccepted : (runAll events {}).accepted = true) :
    (runAll events {}).Complete := by
  rw [← List.append_nil events] at h
  obtain ⟨mtime', hsound, -⟩ := Sound.empty.runAll h
  exact hsound.complete haccepted

/-- The second of two initializations is cut short when it looks at the programs. -/
theorem complete_of_accepted_sample : (runAll [sampleInit false none 40, sampleInit false none 4] {}).Complete :=
  complete_of_accepted
    (sample_orderly rfl rfl (fun h => absurd h.1 (by decide)) fun h => absurd h.2.1 (by decide)) (by decide)

/-- An initialization that succeeds after such a history leaves an image that is up to date. -/
theorem upToDate_of_init {events : List Event} {e : Event} {src : ImageSource} {force : Bool}
    (h : Orderly {} mtime (events ++ [e])) (hinit : e.command = .init src force)
    (hok : (e.run (runAll events {})).1 = some (.ok ())) : (runAll (events ++ [e]) {}).UpToDate e.env.mtime := by
  obtain ⟨mtime', hsound, hle, hpos, -⟩ := Sound.empty.runAll h
  have hnow : Sound e.env.mtime (runAll events {}) := ⟨hsound.recorded.mono hle, hsound.complete⟩
  have hstart : Untouched (runAll events {}) ⟨runAll events {}, []⟩ := ⟨rfl, List.not_mem_nil⟩
  have hstop := durable_initRootfs hnow hpos src force _ hstart e.calls
  have hrun : e.run (runAll events {}) = (initRootfs src force).cut (impl e.env) e.calls ⟨runAll events {}, []⟩ := by
    unfold Event.run
    rw [hinit]
    rfl
  rw [runAll_append]
  change (e.run (runAll events {})).2.dir.UpToDate _
  rw [hrun] at hok ⊢
  generalize (initRootfs src force).cut (impl e.env) e.calls ⟨runAll events {}, []⟩ = result at hok hstop ⊢
  obtain ⟨ending, w⟩ := result
  cases hok
  exact hstop.1

/-- An initialization whose bootstrap VM fails, and one that succeeds. -/
theorem upToDate_of_init_sample :
    (runAll ([sampleInit false (some .runBootstrapVm) 40] ++ [sampleInit false none 40]) {}).UpToDate fun _ => 1 :=
  upToDate_of_init
    (sample_orderly rfl rfl (fun h => absurd h.1 (by decide)) fun h => absurd h.1 (by decide)) rfl (by decide)

/-! ## An image that has been broken -/

/-- An image is taken to be initialized although it is not complete. -/
def Broken (w : World) : Prop := w.dir.accepted = true ∧ ¬w.dir.Complete

theorem Broken.stageFree : StageFree Broken := fun _ _ hw => hw

/-- The calls of an upgrade leave it at that. -/
theorem durable_keep {c : Call} {K : World → Prop} (h : ∀ w, K w → K (impl env c w).2) :
    (sys c).Durable (impl env) K (fun _ => K) (fun _ => K) K :=
  Prog.Durable.perform (fun _ hw => hw) h

theorem durable_toUpgrade_broken (execs : List Exec) :
    (toUpgrade execs).Durable (impl env) Broken (fun _ => Broken) (fun _ => Broken) Broken := by
  induction execs with
  | nil => exact Prog.Durable.pure fun _ hw => hw
  | cons exec execs ih =>
    refine (durable_keep fun _ hw => hw).bind fun answer => ?_
    cases answer with
    | none => exact Prog.Durable.fail fun _ hw => hw
    | some mtime =>
      refine (durable_keep fun _ hw => hw).bind fun answer => ?_
      cases answer with
      | error e => exact Prog.Durable.fail fun _ hw => hw
      | ok recorded => exact ih.bind fun _ => Prog.Durable.pure fun _ hw => hw

/-- An upgrade does not set a disk image up. -/
theorem Broken.runUpgradeVm {w : World} (h : Broken w) (execs : List Exec) : Broken (impl env (.runUpgradeVm execs) w).2 := by
  simp only [impl, step]
  split
  · obtain ⟨haccepted, hincomplete⟩ := h
    refine ⟨?_, fun hcomplete => hincomplete ?_⟩
    · simpa [Dir.accepted, Dir.versionMatches] using haccepted
    · obtain ⟨hkernel, k', hk', hstate⟩ := hcomplete
      obtain ⟨k, hk, rfl⟩ := Option.map_eq_some_iff.1 hk'
      exact ⟨hkernel, k, hk, hstate⟩
  · exact h

theorem Broken.writeMtimeFile {w : World} (h : Broken w) (exec : Exec) : Broken (impl env (.writeMtimeFile exec) w).2 := by
  simp only [impl, step]
  split
  · exact h
  · split <;> exact h

theorem durable_upgrade_broken : upgrade.Durable (impl env) Broken (fun _ => Broken) (fun _ => Broken) Broken := by
  refine (durable_toUpgrade_broken _).bind fun execs => ?_
  split
  · have hvm : (sys (.runUpgradeVm execs) >>= orFail).Durable (impl env) Broken (fun _ => Broken) (fun _ => Broken) Broken :=
      Prog.Durable.require (Prog.Durable.perform (fun _ hw => hw) fun w hw => ⟨hw.runUpgradeVm execs, fun _ => hw.runUpgradeVm execs⟩)
    exact (durable_attemptAll (fun _ hw => hw) Broken.stageFree _).bind fun _ => hvm.bind fun _ =>
      durable_writeMtimeFiles Broken.stageFree (fun w exec hw => hw.writeMtimeFile exec) execs
  · exact Prog.Durable.pure fun _ hw => hw

/-- An initialization that is not forced upgrades the programs of such an image, if anything. -/
theorem durable_initRootfs_broken (hread : env.ok .rootfsVersionMatches = true) (src : ImageSource) :
    (initRootfs src false).Durable (impl env) Broken (fun _ => Broken) (fun _ => Broken) Broken := by
  unfold initRootfs
  split
  · exact Prog.Durable.fail fun _ hw => hw
  rw [if_neg Bool.false_ne_true]
  have hchecks : ∀ w, Broken w → w.dir.kernel.isSome = true ∧ w.dir.disk.isSome = true ∧ w.dir.versionMatches = true := by
    intro w hw
    have haccepted := hw.1
    unfold Dir.accepted at haccepted
    rw [Bool.and_eq_true, Bool.and_eq_true, and_assoc] at haccepted
    exact haccepted
  refine Prog.Durable.bind (M := fun ok w => Broken w ∧ ok = true)
    (Prog.Durable.perform (fun _ hw => hw) fun w hw => ⟨hw, (hchecks w hw).1⟩) fun kernelExists => ?_
  refine Prog.Durable.bind (M := fun ok w => Broken w ∧ ok = true) (Prog.Durable.andAlso (fun _ => ?_) fun hno w hw => ⟨hw.1, hno ▸ hw.2⟩)
    fun requiredFilesExist => ?_
  · exact Prog.Durable.perform (fun _ hw => hw.1) fun w hw => ⟨hw.1, (hchecks w hw.1).2.1⟩
  refine Prog.Durable.bind (M := fun ok w => Broken w ∧ ok = true) (Prog.Durable.andAlso (fun _ => ?_) fun hno w hw => ⟨hw.1, hno ▸ hw.2⟩)
    fun initialized => ?_
  · refine Prog.Durable.perform (fun _ hw => hw.1) fun w hw => ⟨hw.1, ?_⟩
    exact Bool.and_eq_true_iff.2 ⟨hread, (hchecks w hw.1).2.2⟩
  cases initialized with
  | true => exact durable_upgrade_broken.conseq (fun _ hw => hw.1) (fun _ _ hw => hw) (fun _ _ hw => hw) fun _ hw => hw
  | false => exact fun w hw => absurd hw.2 Bool.false_ne_true

/-- An image that is taken to be initialized although it is not complete stays so: no initialization that is not forced ever
completes it, wherever it is cut short. -/
theorem incomplete_of_incomplete {events : List Event} (haccepted : d.accepted = true) (hincomplete : ¬d.Complete)
    (hevents : ∀ e ∈ events, (∃ src, e.command = .init src false) ∧ e.env.ok .rootfsVersionMatches = true) :
    (runAll events d).accepted = true ∧ ¬(runAll events d).Complete := by
  induction events generalizing d with
  | nil => exact ⟨haccepted, hincomplete⟩
  | cons e events ih =>
    obtain ⟨⟨src, hinit⟩, hread⟩ := hevents e List.mem_cons_self
    have hbroken : Broken (e.run d).2 := by
      unfold Event.run
      rw [hinit]
      exact (durable_initRootfs_broken hread src).leaves (s := ⟨d, []⟩) ⟨haccepted, hincomplete⟩ e.calls
    exact ih hbroken.1 hbroken.2 fun e' he' => hevents e' (List.mem_cons_of_mem _ he')

/-- A forced initialization of an image that is up to date, which fails in the bootstrap VM. -/
def sampleBroken : Dir := runAll [sampleInit false none 40, sampleInit true (some .runBootstrapVm) 40] {}

/-- Two initializations that follow it. -/
theorem incomplete_of_incomplete_sample : ¬(runAll [sampleInit false none 40, sampleInit false none 40] sampleBroken).Complete := by
  refine (incomplete_of_incomplete (by decide) ?_ ?_).2
  · rintro ⟨-, k, hk, hstate⟩
    cases hk
    cases hstate
  · intro e he
    rcases List.mem_cons.1 he with rfl | he
    · exact ⟨⟨_, rfl⟩, by decide⟩
    · rcases List.mem_singleton.1 he with rfl
      exact ⟨⟨_, rfl⟩, by decide⟩

end FreeBsdImage

end Anylinuxfs
