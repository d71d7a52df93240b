import Anylinuxfs.AlpineImage

/-!
# A Linux image that is accepted is complete

What every command keeps, wherever it is cut short: an image that is taken to be initialized is complete, unless a removal took
parts of it away and left those that are looked at, or `entrypoint.sh` was not found, or a package was not installed. `vmproxy` may
have been copied only in part; the next initialization that succeeds copies it again.
-/

namespace Anylinuxfs

open Interact (Prog)

namespace AlpineImage

variable {env : Env} {d : Dir}

/-! ## What holds in between -/

/-- What holds between the commands. -/
def Sound (d : Dir) : Prop := d.accepted = true → d.Complete

/-- `vmproxy` is as it was, is away, or is a part of that on the host. -/
def Copied (env : Env) (d : Dir) (w : World) : Prop :=
  w.dir.vmproxy = d.vmproxy ∨ w.dir.vmproxy = none ∨ ∃ n, w.dir.vmproxy = some ⟨env.host.content.take n, env.copyMtime⟩

/-- The version file has been written without an entry point, or without all the packages. -/
def Hollow (env : Env) (w : World) : Prop := .writeRootfsVer ∈ w.calls ∧ ¬env.Provides

/-- A removal has torn the image. -/
def Torn (env : Env) (d : Dir) (w : World) : Prop :=
  .removeAll ∈ w.calls ∧ env.ok .removeAll = false ∧ (d.keep env.kept).accepted = true ∧ ∃ part, env.kept (.part part) = false

/-- How a command may leave the directory `d`. -/
structure Outcome (env : Env) (d : Dir) (w : World) : Prop where
  copied : Copied env d w
  sound : Torn env d w ∨ Hollow env w ∨ Sound w.dir

/-- Nothing has been changed yet. -/
def Untouched (d : Dir) (w : World) : Prop := w.dir = d

/-- Some parts are made, and the version file is away. -/
structure Building (env : Env) (d : Dir) (made : List Part) (w : World) : Prop where
  copied : Copied env d w
  unversioned : w.dir.rootfsVer = none
  parts : ∀ part ∈ made, w.dir.parts part = some (env.makes part)

/-- `vmproxy` is that on the host. -/
def Current (env : Env) (w : World) : Prop := w.dir.vmproxy = some ⟨env.host.content, env.copyMtime⟩

theorem not_accepted_of_unversioned (h : d.rootfsVer = none) : d.accepted = false := by
  have hempty : ¬trim [] = rootfsCurrentVersion := by decide
  simp [Dir.accepted, Dir.versionMatches, h, hempty]

theorem Untouched.outcome {w : World} (hd : Sound d) (h : Untouched d w) : Outcome env d w :=
  ⟨.inl (congrArg Dir.vmproxy h), .inr (.inr (h ▸ hd))⟩

theorem Building.outcome {made : List Part} {w : World} (h : Building env d made w) : Outcome env d w :=
  ⟨h.copied, .inr (.inr fun haccepted => by rw [not_accepted_of_unversioned h.unversioned] at haccepted; cases haccepted)⟩

/-! ## Calls -/

theorem durable_attempt {K I : World → Prop} (hI : ∀ w, K w → I w) (hK : ∀ w calls, K w → K ⟨w.dir, calls⟩) (what : Stage) :
    (attempt what).Durable (impl env) K (fun _ => K) (fun _ => I) I :=
  Prog.Durable.require (Prog.Durable.perform hI fun w hw => ⟨hI _ (hK w _ hw), fun _ => hK w _ hw⟩)

/-- Fewer parts are asked for. -/
theorem Building.mono {made made' : List Part} {w : World} (h : Building env d made w) (hsub : made' ⊆ made) : Building env d made' w :=
  ⟨h.copied, h.unversioned, fun part hpart => h.parts part (hsub hpart)⟩

/-- What calls have been made does not matter. -/
theorem Building.calls {made : List Part} {w : World} (h : Building env d made w) (calls : List Call) :
    Building env d made ⟨w.dir, calls⟩ := ⟨h.copied, h.unversioned, h.parts⟩

theorem parts_put {written : Written} {part part' : Part} :
    (d.put part written).parts part' = if part' = part then some written else d.parts part' := by
  by_cases heq : part' = part
  · rw [if_pos heq, heq]
    exact Function.update_self ..
  · rw [if_neg heq]
    exact Function.update_of_ne heq ..

/-- One more part is made. -/
theorem Building.put {made : List Part} {w : World} (h : Building env d made w) (part : Part) (calls : List Call) :
    Building env d (made ++ [part]) ⟨w.dir.put part (env.makes part), calls⟩ := by
  refine ⟨h.copied, h.unversioned, fun part' hmem => ?_⟩
  change (w.dir.put part (env.makes part)).parts part' = _
  rw [parts_put]
  by_cases heq : part' = part
  · rw [if_pos heq, heq]
  · rw [if_neg heq]
    rcases List.mem_append.1 hmem with hmem | hmem
    · exact h.parts part' hmem
    · exact absurd (List.mem_singleton.1 hmem) heq

/-- What is left of a part counts for nothing. -/
theorem Building.leave {made : List Part} {w : World} (h : Building env d made w) (part : Part) (written : Written)
    (calls : List Call) : Building env d [] ⟨w.dir.put part written, calls⟩ :=
  ⟨h.copied, h.unversioned, fun _ hmem => by cases hmem⟩

/-- A part is made, or something of it may be left. -/
theorem Building.make {made : List Part} {w : World} (h : Building env d made w) (part : Part) :
    Building env d [] (impl env (.make part) w).2 ∧
      ((impl env (.make part) w).1 = true → Building env d (made ++ [part]) (impl env (.make part) w).2) := by
  simp only [impl, step, Dir.make]
  split
  · exact ⟨h.leave part _ _, fun _ => h.put part _⟩
  · refine ⟨?_, fun hyes => by cases hyes⟩
    split
    · exact h.leave part _ _
    · exact (h.mono (List.nil_subset made)).calls _

/-- `vmproxy` is copied, or emptied, or filled in part. -/
theorem copied_copyVmproxy {w : World} (h : Copied env d w) : Copied env d (impl env .copyVmproxy w).2 := by
  simp only [impl, step, Dir.copyVmproxy]
  split
  · exact .inr (.inr ⟨env.host.content.length, by rw [List.take_length]⟩)
  · cases hcopied : env.copied with
    | none => exact h
    | some n => exact .inr (.inr ⟨n, rfl⟩)

theorem current_copyVmproxy {w : World} (h : (impl env .copyVmproxy w).1 = true) : Current env (impl env .copyVmproxy w).2 := by
  simp only [impl, step, Dir.copyVmproxy] at h ⊢
  split at h
  · next hok =>
    rw [if_pos hok]
    rfl
  · cases h

/-- A copy leaves everything else alone. -/
theorem copyVmproxy_frame (w : World) : ∃ vmproxy, (impl env .copyVmproxy w).2.dir = { w.dir with vmproxy } := by
  simp only [impl, step, Dir.copyVmproxy]
  split <;> exact ⟨_, rfl⟩

/-! ## The installation -/

/-- The parts that are made one after another. -/
theorem durable_makeAll {J : World → Prop} (hJ : ∀ w part, J w → J (impl env (.make part) w).2) (parts made : List Part) :
    (makeAll parts).Durable (impl env) (fun w => Building env d made w ∧ J w) (fun _ w => Building env d (made ++ parts) w ∧ J w)
      (fun _ => Outcome env d) (Outcome env d) := by
  induction parts generalizing made with
  | nil => exact Prog.Durable.pure fun w hw => by rwa [List.append_nil]
  | cons part parts ih =>
    have hmake : (sys (.make part) >>= orFail).Durable (impl env) (fun w => Building env d made w ∧ J w)
        (fun _ w => Building env d (made ++ [part]) w ∧ J w) (fun _ => Outcome env d) (Outcome env d) := by
      refine Prog.Durable.require (Prog.Durable.perform (fun w hw => hw.1.outcome) fun w hw => ?_)
      obtain ⟨hleft, hmade⟩ := hw.1.make part
      exact ⟨hleft.outcome, fun hok => ⟨hmade hok, hJ w part hw.2⟩⟩
    rw [List.append_cons]
    exact hmake.bind fun _ => ih (made ++ [part])

/-- What is accepted while parts of it are away was accepted before. -/
theorem Dir.accepted_of_keep {kept : Entry → Bool} (h : (d.keep kept).accepted = true) : d.accepted = true := by
  have hempty : ¬trim [] = rootfsCurrentVersion := by decide
  simp only [Dir.accepted, Dir.keep, Dir.versionMatches, Bool.and_eq_true] at h ⊢
  obtain ⟨⟨⟨⟨⟨⟨-, hbash⟩, -, hnfsd⟩, hentrypoint⟩, hvmproxy⟩, hfstab⟩, hversion⟩ := h
  refine ⟨⟨⟨⟨⟨hbash, hnfsd⟩, ?_⟩, ?_⟩, ?_⟩, ?_⟩
  · split at hentrypoint
    · exact hentrypoint
    · cases hentrypoint
  · split at hvmproxy
    · exact hvmproxy
    · cases hvmproxy
  · split at hfstab
    · exact hfstab
    · cases hfstab
  · split at hversion
    · exact hversion
    · exact absurd (of_decide_eq_true hversion) hempty

theorem Dir.accepted_programs (h : d.accepted = true) : d.bash = true ∧ d.nfsd = true := by
  simp only [Dir.accepted, Bool.and_eq_true] at h
  exact h.1.1.1.1

/-- A removal that fails tears the image, or leaves it as complete as it was. -/
theorem Untouched.keep {w : World} (hd : Sound d) (h : Untouched d w) (hfails : env.ok .removeAll = false) :
    Outcome env d ⟨w.dir.keep env.kept, w.calls ++ [.removeAll]⟩ := by
  obtain rfl : w.dir = d := h
  refine ⟨?_, ?_⟩
  · change (if env.kept .vmproxy then w.dir.vmproxy else none) = _ ∨ (if env.kept .vmproxy then w.dir.vmproxy else none) = _ ∨ _
    split
    · exact .inl rfl
    · exact .inr (.inl rfl)
  · by_cases hall : ∃ part, env.kept (.part part) = false
    · by_cases haccepted : (w.dir.keep env.kept).accepted = true
      · exact .inl ⟨by simp, hfails, haccepted, hall⟩
      · exact .inr (.inr fun h => absurd h haccepted)
    · refine .inr (.inr fun haccepted => ⟨fun part => ?_, ?_, ?_⟩)
      · have hkept : env.kept (.part part) = true := by
          by_contra hno
          exact hall ⟨part, Bool.eq_false_iff.2 hno⟩
        exact (if_pos hkept).trans ((hd (Dir.accepted_of_keep haccepted)).parts part)
      · exact (Dir.accepted_programs haccepted).1
      · exact (Dir.accepted_programs haccepted).2

/-- A removal empties the directory, or fails. -/
theorem Untouched.removeAll {w : World} (hd : Sound d) (h : Untouched d w) :
    Outcome env d (impl env .removeAll w).2 ∧ ((impl env .removeAll w).1 = true → Building env d [] (impl env .removeAll w).2) := by
  have hempty : ∀ calls, Building env d [] ⟨{}, calls⟩ := fun calls => ⟨.inr (.inl rfl), rfl, fun _ hmem => by cases hmem⟩
  simp only [impl, step]
  split
  · exact ⟨(hempty _).outcome, fun _ => hempty _⟩
  · next hfails => exact ⟨h.keep hd (Bool.eq_false_iff.2 hfails), fun hyes => by cases hyes⟩

/-- What `init-rootfs` makes before the VM runs. -/
def partsBeforeVm : List Part := partsBeforeVmproxy ++ [.overrideStat]

theorem durable_goInitRootfs (hd : Sound d) :
    goInitRootfs.Durable (impl env) (Untouched d) (fun _ w => Building env d partsBeforeVm w ∧ Current env w)
      (fun _ => Outcome env d) (Outcome env d) := by
  have hremove : (sys .removeAll >>= orFail).Durable (impl env) (Untouched d) (fun _ w => Building env d [] w ∧ True)
      (fun _ => Outcome env d) (Outcome env d) :=
    Prog.Durable.require (Prog.Durable.perform (fun w hw => hw.outcome hd) fun w hw =>
      ⟨(hw.removeAll hd).1, fun hyes => ⟨(hw.removeAll hd).2 hyes, trivial⟩⟩)
  have hcopy : (sys .copyVmproxy >>= orFail).Durable (impl env) (fun w => Building env d partsBeforeVmproxy w ∧ True)
      (fun _ w => Building env d partsBeforeVmproxy w ∧ Current env w) (fun _ => Outcome env d) (Outcome env d) := by
    refine Prog.Durable.require (Prog.Durable.perform (fun w hw => hw.1.outcome) fun w hw => ?_)
    obtain ⟨vmproxy, hdir⟩ : ∃ vmproxy, (impl env .copyVmproxy w).2.dir = { w.dir with vmproxy } := copyVmproxy_frame w
    have hbuilding : Building env d partsBeforeVmproxy (impl env .copyVmproxy w).2 :=
      ⟨copied_copyVmproxy hw.1.copied, by rw [hdir]; exact hw.1.unversioned,
        fun part hmem => by rw [hdir]; exact hw.1.parts part hmem⟩
    exact ⟨hbuilding.outcome, fun hyes => ⟨hbuilding, current_copyVmproxy hyes⟩⟩
  refine hremove.bind fun _ => ?_
  refine (durable_attempt (fun w hw => hw.1.outcome) (fun w calls hw => ⟨hw.1.calls calls, hw.2⟩) _).bind fun _ => ?_
  refine (durable_makeAll (fun _ _ _ => trivial) _ _).bind fun _ => ?_
  refine hcopy.bind fun _ => ?_
  refine durable_makeAll (fun w part hw => ?_) _ _
  unfold Current at hw ⊢
  simp only [impl, step, Dir.make]
  split
  · exact hw
  · split <;> exact hw

/-- Every part is there, or the version file has been written without an entry point or a package; and `vmproxy` is that on the host, or does not
seem to differ from it. -/
def Done (env : Env) (d : Dir) (w : World) : Prop :=
  (Hollow env w ∨ w.dir.Complete) ∧ (Current env w ∨ w.dir.vmproxy = d.vmproxy ∧ ∃ g, d.vmproxy = some g ∧
    filesLikelyDiffer env.host g = false)

theorem Current.copied {w : World} (h : Current env w) : Copied env d w :=
  .inr (.inr ⟨env.host.content.length, by rw [List.take_length]; exact h⟩)

theorem Done.outcome {w : World} (h : Done env d w) : Outcome env d w :=
  ⟨h.2.elim Current.copied fun hsame => .inl hsame.1, .inr (h.1.imp_right fun hcomplete _ => hcomplete)⟩

/-- The two programs are there if the packages are. -/
def Programs (env : Env) (w : World) : Prop := env.packages = .wholly → w.dir.bash = true ∧ w.dir.nfsd = true

/-- The setup of the VM makes the last part. -/
theorem durable_runVm :
    (sys .runVm >>= orFail).Durable (impl env) (fun w => Building env d partsBeforeVm w ∧ Current env w)
      (fun _ w => Building env d (partsBeforeVm ++ [.packages]) w ∧ Current env w ∧ Programs env w) (fun _ => Outcome env d)
      (Outcome env d) := by
  refine Prog.Durable.require (Prog.Durable.perform (fun w hw => hw.1.outcome) fun w hw => ?_)
  have hput : Building env d (partsBeforeVm ++ [.packages]) ⟨w.dir.put .packages env.packages, w.calls ++ [.runVm]⟩ :=
    hw.1.put .packages _
  have hbuilding : Building env d (partsBeforeVm ++ [.packages]) (impl env .runVm w).2 :=
    ⟨hput.copied, hput.unversioned, hput.parts⟩
  refine ⟨hbuilding.outcome, fun _ => ⟨hbuilding, hw.2, fun hpackages => ?_⟩⟩
  simp [impl, step, Dir.install, hpackages]

/-- All parts are made, and the programs if the packages are. -/
def Installed (env : Env) (w : World) : Prop := (∀ part, w.dir.parts part = some (env.makes part)) ∧ Programs env w

theorem Building.installed {w : World} (h : Building env d (partsBeforeVm ++ [.packages]) w) (hprograms : Programs env w) :
    Installed env w := by
  refine ⟨fun part => ?_, hprograms⟩
  have hmem : part ∈ partsBeforeVm ++ [Part.packages] := by cases part <;> decide
  exact h.parts part hmem

/-- An image that is made is complete exactly if its entry point was found and its packages were installed. -/
theorem Installed.complete_iff {w : World} (h : Installed env w) : w.dir.Complete ↔ env.Provides := by
  constructor
  · intro hcomplete
    have hmakes : ∀ part, env.makes part = .wholly := fun part => Option.some.inj ((h.1 part).symm.trans (hcomplete.parts part))
    refine ⟨?_, hmakes .packages⟩
    by_contra hfound
    have hentrypoint := hmakes .entrypoint
    simp [Env.makes, hfound] at hentrypoint
  · intro hprovides
    refine ⟨fun part => ?_, (h.2 hprovides.2).1, (h.2 hprovides.2).2⟩
    rw [h.1 part]
    cases part <;> simp [Env.makes, hprovides.1, hprovides.2]

theorem durable_install (hd : Sound d) :
    install.Durable (impl env) (Untouched d) (fun _ w => (Installed env w ∧ .writeRootfsVer ∈ w.calls) ∧ Current env w)
      (fun _ => Outcome env d) (Outcome env d) := by
  have hstage : ∀ w calls, Untouched d w → Untouched d ⟨w.dir, calls⟩ := fun _ _ hw => hw
  refine (durable_attempt (fun w hw => hw.outcome hd) hstage _).bind fun _ => ?_
  refine (durable_attempt (fun w hw => hw.outcome hd) hstage _).bind fun _ => ?_
  refine (durable_goInitRootfs hd).bind fun _ => ?_
  refine durable_runVm.bind fun _ => ?_
  refine (durable_attempt (fun w hw => hw.1.outcome) (fun w calls hw => ⟨hw.1.calls calls, hw.2⟩) _).bind fun _ => ?_
  refine Prog.Durable.perform (fun w hw => hw.1.outcome) fun w ⟨hbuilding, hcurrent, hprograms⟩ => ?_
  have hframe : ∃ rootfsVer, (impl env .writeRootfsVer w).2.dir = { w.dir with rootfsVer } := by
    simp only [impl, step]
    split
    · exact ⟨_, rfl⟩
    · split <;> exact ⟨_, rfl⟩
  obtain ⟨rootfsVer, hdir⟩ := hframe
  have hinstalled := hbuilding.installed hprograms
  unfold Installed Programs Current at *
  rw [hdir]
  exact ⟨⟨hinstalled, by simp [impl]⟩, hcurrent⟩

/-- An installation is done. -/
theorem done_of_installed {w : World} (h : (Installed env w ∧ .writeRootfsVer ∈ w.calls) ∧ Current env w) : Done env d w := by
  refine ⟨?_, .inl h.2⟩
  by_cases hprovides : env.Provides
  · exact .inr (h.1.1.complete_iff.2 hprovides)
  · exact .inl ⟨h.1.2, hprovides⟩

/-! ## The commands -/

/-- An image that is initialized gets the `vmproxy` of the host, if that seems to differ. -/
theorem durable_update (hcomplete : d.Complete) :
    update.Durable (impl env) (Untouched d) (fun _ => Done env d) (fun _ => Outcome env d) (Outcome env d) := by
  have hd : Sound d := fun _ => hcomplete
  have hdone : ∀ w, Untouched d w → ∀ g, d.vmproxy = some g → filesLikelyDiffer env.host g = false → Done env d w := by
    intro w hw g hg hsame
    obtain rfl : w.dir = d := hw
    exact ⟨.inr hcomplete, .inr ⟨rfl, g, hg, hsame⟩⟩
  have hcheck : (sys .filesLikelyDiffer).Durable (impl env) (Untouched d)
      (fun answer w => Untouched d w ∧ (answer = some false → Done env d w)) (fun _ => Outcome env d) (Outcome env d) := by
    refine Prog.Durable.perform (fun w hw => hw.outcome hd) fun w hw => ⟨hw, fun hsame => ?_⟩
    obtain rfl : w.dir = d := hw
    simp only [impl, step] at hsame
    split at hsame
    · obtain ⟨g, hg, hsame⟩ := Option.map_eq_some_iff.1 hsame
      exact hdone _ rfl g hg hsame
    · cases hsame
  -- after the copy all parts are as they were
  have hcopy : (sys .copyVmproxy >>= orFail).Durable (impl env) (Untouched d)
      (fun _ w => (w.dir.Complete ∧ Copied env d w) ∧ Current env w) (fun _ => Outcome env d) (Outcome env d) := by
    refine Prog.Durable.require (Prog.Durable.perform (fun w hw => hw.outcome hd) fun w hw => ?_)
    obtain rfl : w.dir = d := hw
    obtain ⟨vmproxy, hdir⟩ : ∃ vmproxy, (impl env .copyVmproxy w).2.dir = { w.dir with vmproxy } := copyVmproxy_frame w
    have hparts : (impl env .copyVmproxy w).2.dir.Complete := by
      rw [hdir]
      exact ⟨hcomplete.parts, hcomplete.bash, hcomplete.nfsd⟩
    have hcopied : Copied env w.dir (impl env .copyVmproxy w).2 := copied_copyVmproxy (.inl rfl)
    exact ⟨⟨hcopied, .inr (.inr fun _ => hparts)⟩, fun hyes => ⟨⟨hparts, hcopied⟩, current_copyVmproxy hyes⟩⟩
  refine hcheck.bind fun answer => ?_
  split
  · exact Prog.Durable.fail fun w hw => hw.1.outcome hd
  · exact Prog.Durable.pure fun w hw => hw.2 rfl
  · refine Prog.Durable.conseq (fun w hw => hw.1) (fun _ _ hw => hw) (fun _ _ hw => hw) (fun _ hw => hw) ?_
    refine (durable_attempt (fun w hw => hw.outcome hd) (fun _ _ hw => hw) _).bind fun _ => ?_
    refine hcopy.bind fun _ => ?_
    refine (durable_attempt (fun w hw => ⟨hw.1.2, .inr (.inr fun _ => hw.1.1)⟩) (fun _ _ hw => hw) _).conseq (fun _ hw => hw)
      (fun _ w hw => ?_) (fun _ _ hw => hw) fun _ hw => hw
    exact ⟨.inr hw.1.1, .inl hw.2⟩

/-- A check of the directory, which is made if those before it have succeeded. -/
theorem durable_check {ok : Bool} {P R : Prop} {p : Proc Bool}
    (hp : p.Durable (impl env) (Untouched d) (fun answer w => Untouched d w ∧ (answer = true → R)) (fun _ => Outcome env d) (Outcome env d)) :
    (Prog.andAlso ok p).Durable (impl env) (fun w => Untouched d w ∧ (ok = true → P))
      (fun answer w => Untouched d w ∧ (answer = true → P ∧ R)) (fun _ => Outcome env d) (Outcome env d) := by
  refine Prog.Durable.andAlso (fun hyes w hw n => ?_) fun hno w hw => ⟨hw.1, fun h => by cases h⟩
  exact (hp w hw.1 n).mono (fun _ _ h => ⟨h.1, fun ha => ⟨hw.2 hyes, h.2 ha⟩⟩) (fun _ _ h => h) fun _ h => h

/-- A file is looked for. -/
theorem durable_look (hd : Sound d) {c : Call} (hdir : ∀ w : World, (impl env c w).2.dir = w.dir) {R : c.Answer → Prop}
    (hR : ∀ w : World, w.dir = d → R (impl env c w).1) :
    (sys c).Durable (impl env) (Untouched d) (fun answer w => Untouched d w ∧ R answer) (fun _ => Outcome env d) (Outcome env d) :=
  Prog.Durable.perform (fun _ hw => hw.outcome hd) fun w hw => ⟨(hdir w).trans hw, hR w hw⟩

theorem durable_fstabConfigured (hd : Sound d) :
    fstabConfigured.Durable (impl env) (Untouched d)
      (fun answer w => Untouched d w ∧ (answer = true → (d.parts .fstab).isSome = true)) (fun _ => Outcome env d) (Outcome env d) := by
  have hconfigured : (sys .fstabConfigured).Durable (impl env) (Untouched d)
      (fun answer w => Untouched d w ∧ (answer = some true → (d.parts .fstab).isSome = true)) (fun _ => Outcome env d)
      (Outcome env d) := by
    refine durable_look hd (fun _ => rfl) fun w hw => ?_
    simp only [impl, step, hw]
    intro hyes
    split at hyes
    · cases hfstab : d.parts .fstab with
      | none => simp [hfstab] at hyes
      | some written => rfl
    · cases hyes
  refine (durable_look hd (c := .fstabExists) (fun _ => rfl) (R := fun _ => True) fun _ _ => trivial).bind fun answer => ?_
  cases answer with
  | false => exact Prog.Durable.pure fun w hw => ⟨hw.1, fun h => by cases h⟩
  | true =>
    refine (hconfigured.conseq (fun _ hw => hw.1) (fun _ _ hw => hw) (fun _ _ hw => hw) fun _ hw => hw).bind fun answer => ?_
    cases answer with
    | none => exact Prog.Durable.fail fun w hw => hw.1.outcome hd
    | some configured => exact Prog.Durable.pure fun w hw => ⟨hw.1, fun hyes => hw.2 (congrArg some hyes)⟩

/-- The required files exist. -/
def Dir.HasFiles (d : Dir) : Prop :=
  ((d.bash = true ∧ d.nfsd = true) ∧ (d.parts .entrypoint).isSome = true) ∧ d.vmproxy.isSome = true

/-- An image that is found to be initialized is one that is accepted. -/
theorem durable_initialized (hd : Sound d) :
    initialized.Durable (impl env) (Untouched d) (fun answer w => Untouched d w ∧ (answer = true → d.accepted = true))
      (fun _ => Outcome env d) (Outcome env d) := by
  have hbash : (sys .bashExists).Durable (impl env) (Untouched d) (fun answer w => Untouched d w ∧ (answer = true → d.bash = true))
      (fun _ => Outcome env d) (Outcome env d) := durable_look hd (fun _ => rfl) fun w hw h => hw ▸ h
  have hnfsd : (sys .nfsdExists).Durable (impl env) (Untouched d) (fun answer w => Untouched d w ∧ (answer = true → d.nfsd = true))
      (fun _ => Outcome env d) (Outcome env d) := durable_look hd (fun _ => rfl) fun w hw h => hw ▸ h
  have hentrypoint : (sys .entrypointExists).Durable (impl env) (Untouched d)
      (fun answer w => Untouched d w ∧ (answer = true → (d.parts .entrypoint).isSome = true)) (fun _ => Outcome env d)
      (Outcome env d) := durable_look hd (fun _ => rfl) fun w hw h => hw ▸ h
  have hvmproxy : (sys .vmproxyExists).Durable (impl env) (Untouched d)
      (fun answer w => Untouched d w ∧ (answer = true → d.vmproxy.isSome = true)) (fun _ => Outcome env d) (Outcome env d) :=
    durable_look hd (fun _ => rfl) fun w hw h => hw ▸ h
  have hversion : (sys .rootfsVersionMatches).Durable (impl env) (Untouched d)
      (fun answer w => Untouched d w ∧ (answer = true → d.versionMatches = true)) (fun _ => Outcome env d) (Outcome env d) :=
    durable_look hd (fun _ => rfl) fun w hw h => hw ▸ (Bool.and_eq_true_iff.1 h).2
  refine hbash.bind fun bash => ?_
  refine (durable_check hnfsd).bind fun nfsd => ?_
  refine (durable_check hentrypoint).bind fun entrypoint => ?_
  refine (durable_check hvmproxy).bind fun requiredFilesExist => ?_
  refine ((durable_fstabConfigured hd).frame (φ := requiredFilesExist = true → d.HasFiles)).bind fun configured => ?_
  refine (durable_check (P := d.HasFiles ∧ (d.parts .fstab).isSome = true) hversion).conseq (fun w hw => ⟨hw.1.1, fun hyes => ?_⟩)
    (fun answer w hw => ⟨hw.1, fun hyes => ?_⟩) (fun _ _ hw => hw) fun _ hw => hw
  · obtain ⟨⟨⟨⟨⟨hbash, hnfsd⟩, hentrypoint⟩, hvmproxy⟩, hfstab⟩, hversion⟩ := hw.2 hyes
    simp [Dir.accepted, hbash, hnfsd, hentrypoint, hvmproxy, hfstab, hversion]
  · obtain ⟨hrequired, hconfigured⟩ := Bool.and_eq_true_iff.1 hyes
    exact ⟨hw.2 hrequired, hw.1.2 hconfigured⟩

/-- An initialization that succeeds leaves a complete image. -/
theorem durable_initRootfs (hd : Sound d) (force : Bool) :
    (initRootfs force).Durable (impl env) (Untouched d) (fun _ => Done env d) (fun _ => Outcome env d) (Outcome env d) := by
  have hinstall : install.Durable (impl env) (Untouched d) (fun _ => Done env d) (fun _ => Outcome env d) (Outcome env d) :=
    (durable_install hd).conseq (fun _ hw => hw) (fun _ _ hw => done_of_installed hw) (fun _ _ hw => hw) fun _ hw => hw
  unfold initRootfs
  split
  · exact hinstall
  refine (durable_initialized hd).bind fun answer => ?_
  cases answer with
  | true => exact fun w hw => durable_update (hd (hw.2 rfl)) w hw.1
  | false => exact fun w hw => hinstall w hw.1

/-- A removal leaves nothing, if it succeeds. -/
theorem durable_remove (hd : Sound d) :
    remove.Durable (impl env) (Untouched d) (fun _ => Outcome env d) (fun _ => Outcome env d) (Outcome env d) := by
  refine (durable_attempt (fun w hw => hw.outcome hd) (fun _ _ hw => hw) _).bind fun _ => ?_
  refine Prog.Durable.require (Prog.Durable.perform (fun w hw => hw.outcome hd) fun w hw => ?_)
  exact ⟨(hw.removeAll hd).1, fun hyes => ((hw.removeAll hd).2 hyes).outcome⟩

/-! ## Histories -/

/-- Wherever a command is cut short, it leaves the directory in one of the ways that are looked at here. -/
theorem outcome_run (hd : Sound d) (e : Event) : Outcome e.env d (e.run d).2 := by
  have hdurable : e.command.proc.Durable (impl e.env) (Untouched d) (fun _ => Outcome e.env d) (fun _ => Outcome e.env d)
      (Outcome e.env d) := by
    cases hcommand : e.command with
    | init force =>
      exact (durable_initRootfs hd force).conseq (fun _ hw => hw) (fun _ _ hw => hw.outcome) (fun _ _ hw => hw) fun _ hw => hw
    | remove => exact durable_remove hd
  exact hdurable.leaves (s := ⟨d, []⟩) rfl e.calls

/-- A command keeps what holds between the commands, unless it tears the image or leaves it without its entry point or packages. -/
theorem Sound.run {e : Event} (hd : Sound d) (htears : ¬e.Tears d) (hhollow : ¬e.Hollow d) : Sound (e.run d).2.dir :=
  ((outcome_run hd e).sound.resolve_left htears).resolve_left hhollow

/-- What holds at some point of a history that goes on. -/
theorem Sound.runAll {events rest : List Event} (hd : Sound d) (h : Orderly d (events ++ rest)) :
    Sound (runAll events d) ∧ Orderly (runAll events d) rest := by
  induction events generalizing d with
  | nil => exact ⟨hd, h⟩
  | cons e events ih =>
    obtain ⟨htears, hhollow, hrest⟩ := h
    exact ih (hd.run htears hhollow) hrest

theorem Sound.empty : Sound {} := fun h => by cases h

theorem runAll_append (events rest : List Event) (d : Dir) : runAll (events ++ rest) d = runAll rest (runAll events d) := by
  induction events generalizing d with
  | nil => rfl
  | cons e events ih => exact ih _

/-- `vmproxy` is a part of what it was on the host when some command was run. -/
def CopiedBy (events : List Event) (d : Dir) : Prop :=
  ∀ g, d.vmproxy = some g → ∃ e ∈ events, ∃ n, g = ⟨e.env.host.content.take n, e.env.copyMtime⟩

theorem CopiedBy.runAll {before events rest : List Event} (hcopied : CopiedBy before d) (hd : Sound d)
    (h : Orderly d (events ++ rest)) :
    CopiedBy (before ++ events) (runAll events d) := by
  induction events generalizing before d with
  | nil => rwa [List.append_nil]
  | cons e events ih =>
    obtain ⟨htears, hhollow, hrest⟩ := h
    have hrun : CopiedBy (before ++ [e]) (e.run d).2.dir := by
      intro g hg
      rcases (outcome_run hd e).copied with hsame | hnone | ⟨n, hpart⟩
      · obtain ⟨e', he', n, hn⟩ := hcopied g (hsame.symm.trans hg)
        exact ⟨e', List.mem_append_left _ he', n, hn⟩
      · rw [hnone] at hg
        cases hg
      · exact ⟨e, by simp, n, Option.some.inj (hg.symm.trans hpart)⟩
    rw [List.append_cons]
    exact ih hrun (hd.run htears hhollow) hrest

/-- An initialization in which a call may fail. -/
def sampleInit (host : File) (copyMtime : Nat) (fails : Option Call) (calls : Nat) : Event where
  command := .init false
  env := { host, copyMtime, ok := fun c => some c ≠ fails, copied := some 1 }
  calls := calls

/-- A history is orderly if no removal fails, the entry point is always found and the packages are always installed. -/
theorem sample_orderly {events : List Event} (h : ∀ e ∈ events, e.env.ok .removeAll = true ∧ e.env.Provides) :
    Orderly d events := by
  induction events generalizing d with
  | nil => trivial
  | cons e events ih =>
    obtain ⟨hremoves, hfound⟩ := h e List.mem_cons_self
    refine ⟨fun htears => ?_, fun hhollow => ?_, ih fun e' he' => h e' (List.mem_cons_of_mem _ he')⟩
    · exact Bool.noConfusion (hremoves.symm.trans htears.2.1)
    · exact hhollow.2 hfound

end AlpineImage

end Anylinuxfs
