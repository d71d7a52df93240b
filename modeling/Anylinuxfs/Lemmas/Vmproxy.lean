import Anylinuxfs.Lemmas.Label

/-!
# Lemmas about the run of the guest

The run of `vmproxy` is followed part by part: what becomes of the disk, and that no line but the tag of the label that is found
can be taken for one when the texts that go into the lines are without it, or are only printed behind another tag.
-/

namespace Anylinuxfs

open Interact (Prog)
open Pattern (Free)

namespace Vmproxy

variable {α β : Type} {env : ∀ c : Call, c.Answer}

/-! ## What a part prints -/

/-- The lines that a part of `vmproxy` prints. -/
def spoken (env : ∀ c : Call, c.Answer) (p : Vm α) : List (List Char) := (p.trace env).filterMap Call.line?

/-- What two parts print, if the first returns. -/
theorem spoken_bind {p : Vm α} {f : α → Vm β} {a : α} (h : p.result env = .ok a) :
    spoken env (p >>= f) = spoken env p ++ spoken env (f a) := by
  simp [spoken, Prog.trace_bind, h]

/-- A line is printed by the first part, or by the second when the first returns. -/
theorem mem_spoken_bind {p : Vm α} {f : α → Vm β} {line : List Char} :
    line ∈ spoken env (p >>= f) ↔ line ∈ spoken env p ∨ ∃ a, p.result env = .ok a ∧ line ∈ spoken env (f a) := by
  cases h : p.result env with
  | ok a =>
    rw [spoken_bind h]
    simp
  | error e => simp [spoken, Prog.trace_bind, h]

/-- A part that prints no line which is read as the tag of a label. -/
def Silent (env : ∀ c : Call, c.Answer) (p : Vm α) : Prop := ∀ line ∈ spoken env p, Unheard line

/-- Two silent parts are silent. -/
theorem Silent.bind {p : Vm α} {f : α → Vm β} (hp : Silent env p) (hf : ∀ a, p.result env = .ok a → Silent env (f a)) :
    Silent env (p >>= f) := by
  intro line hline
  rcases mem_spoken_bind.1 hline with hline | ⟨a, ha, hline⟩
  · exact hp line hline
  · exact hf a ha line hline

namespace DiskContext

variable {os : OsType} {dsk dsk' : DiskContext}

/-- The name of the mount that a label gives. -/
def named (dsk : DiskContext) (label : Option (List Char)) : DiskContext :=
  match label with
  | some label => { dsk with mountName := label }
  | none => dsk

end DiskContext

variable {os : OsType} {cli : MountArgs} {dsk : DiskContext}

/-- A path under `/mnt` has no tag if the name has none. -/
theorem untagged_underMnt {name : List Char} (h : Untagged name) : Untagged (underMnt name) :=
  h.after rfl

/-- The bytes of a path under `/mnt`. -/
theorem utf8_underMnt (name : List Char) : utf8 (underMnt name) = bytes "/mnt/" ++ utf8 name :=
  List.flatMap_append

/-- The mount point of a name. -/
def mountPointOf (name : List Char) : List Char := if name = [] then [] else underMnt name

/-- A mount point has no tag if the name has none. -/
theorem untagged_mountPointOf {name : List Char} (h : Untagged name) : Untagged (mountPointOf name) := by
  unfold mountPointOf
  split
  · exact Free.nil labelTag_ne_nil
  · exact untagged_underMnt h

/-- A text without a tag has none behind its first line. -/
theorem Untagged.behind {text : List Char} (h : Untagged text) : UntaggedBehind text :=
  h.of_part (List.dropWhile_suffix _).isInfix

/-- There are arguments for every path. -/
theorem exportArgs_paths {exportMode : List Char} {argsOverride : Option (List Char)} {i : Nat} {paths : List (List Char)}
    {exports : List (List Char × List Char)} (h : (exportArgs os exportMode argsOverride i paths).result env = .ok exports) :
    exports.map Prod.fst = paths := by
  induction paths generalizing i exports with
  | nil =>
    cases h
    rfl
  | cons path paths ih =>
    obtain ⟨args, -, h⟩ := Prog.result_bind_eq_ok.1 h
    obtain ⟨others, hothers, h⟩ := Prog.result_bind_eq_ok.1 h
    rw [← Except.ok.inj h, List.map_cons, ih hothers]

/-- A guest in which every command succeeds and the script of the options prints a text. -/
def optionsGuest (output : List Char) : (c : Call) → c.Answer
  | .println _ => ()
  | .mdadmAssemble | .vgchange | .modprobeZfs | .btrfsDeviceScan | .createDirAll _ | .writeExports _ _ => true
  | .mdadmDetail | .blkid _ _ => some []
  | .effectiveOptions _ => some output
  | .importAllZpools _ _ => .ok (some 0, [], [])
  | .executeAction _ _ => .ok ()
  | .mount _ => some (some 0)
  | .mountDatasets _ => .ok (some 0)
  | .statfs _ => some 0

end Vmproxy

end Anylinuxfs
