import Anylinuxfs.InitRootfs

/-!
# The directory of an image

`effective_base_dir` is what `init-rootfs` is told, and an empty directory tells it nothing: both sides name the same directory
exactly when the Rust side has a name.
-/

namespace Anylinuxfs

open InitRootfs

/-- Replacing one character by another. -/
theorem replace_singleton (a b : Char) (s : List Char) : replace [a] [b] s = s.map fun c => if c = a then b else c := by
  rw [replace_char, List.map_eq_flatMap]
  exact List.flatMap_congr fun c _ => (apply_ite (fun d => [d]) (c = a) b c).symm

/-- A derived name is as long as the reference. -/
theorem effectiveBaseDir_eq_nil {src : ImageSource} :
    src.effectiveBaseDir = [] ↔ src.baseDir = [] ∧ ∀ dockerRef ∈ src.dockerRef, dockerRef = [] := by
  unfold ImageSource.effectiveBaseDir
  by_cases hbase : src.baseDir = []
  · rw [if_neg (not_not.2 hbase)]
    cases src.dockerRef with
    | none => simp [hbase]
    | some dockerRef => simp [replace_singleton, hbase]
  · rw [if_pos hbase]
    exact ⟨fun h => absurd h hbase, fun h => absurd h.1 hbase⟩

/-- The name that is derived in Go is never empty. -/
theorem baseDirFromDockerRef_ne_nil (imageName tag : List Char) : baseDirFromDockerRef imageName tag ≠ [] := by
  simp [baseDirFromDockerRef, replace_singleton]

/-- The directory that is given, or one that is derived. -/
theorem defaultConfig_baseDir (dockerRef baseDir : List Char) :
    (defaultConfig dockerRef baseDir).baseDir =
      if baseDir = [] then
        baseDirFromDockerRef (defaultConfig dockerRef baseDir).imageName (defaultConfig dockerRef baseDir).tag
      else baseDir := by
  unfold defaultConfig
  cases rfind [':'] dockerRef <;> rfl

/-- `init-rootfs` reads its arguments as `alpine::init_rootfs` means them. -/
theorem unpackDir_eq (dnsServer : List Char) (src : ImageSource) :
    unpackDir dnsServer src =
      some (defaultConfig (src.dockerRef.getD "alpine:latest".toList) src.effectiveBaseDir).baseDir := by
  unfold unpackDir mainConfig initRootfsArgs
  cases src.setupScript <;> rfl

/-- The image is unpacked into the directory where the Rust side looks for it exactly when it has a base directory, or else a
reference that is not empty. -/
theorem unpackDir_eq_effectiveBaseDir_iff (dnsServer : List Char) (src : ImageSource) :
    unpackDir dnsServer src = some src.effectiveBaseDir ↔ src.baseDir ≠ [] ∨ ∃ dockerRef ∈ src.dockerRef, dockerRef ≠ [] := by
  have hcond : src.effectiveBaseDir ≠ [] ↔ src.baseDir ≠ [] ∨ ∃ dockerRef ∈ src.dockerRef, dockerRef ≠ [] := by
    rw [Ne, effectiveBaseDir_eq_nil, not_and_or]
    simp
  rw [← hcond, unpackDir_eq, Option.some_inj, defaultConfig_baseDir]
  constructor
  · intro hdir hempty
    rw [if_pos hempty, hempty] at hdir
    exact baseDirFromDockerRef_ne_nil _ _ hdir
  · intro hdir
    rw [if_neg hdir]

/-- An image with neither a base directory nor a reference is unpacked into `alpine-latest`, and is looked for in the profile
directory itself. -/
theorem unpackDir_false :
    unpackDir "1.1.1.1".toList { baseDir := [], dockerRef := none, osType := .linux } ≠
      some (ImageSource.effectiveBaseDir { baseDir := [], dockerRef := none, osType := .linux }) := by
  decide

end Anylinuxfs
