import Anylinuxfs.Lemmas.Preferences
import Anylinuxfs.Lemmas.Utf8

/-!
# Config loading and the file it reads

A file that is no config of the current schema, but one of the older schema, is converted and written back. The older schema has
no settings of the network and of the default images, no `nfs_export_subdirs` and no `required_os`, and any error of the current
schema leads to it, not only the byte strings it is meant for.
-/

namespace Anylinuxfs

open Serde

section

variable [Crates] {write : Bytes → WriteOutcome} {path : Bytes} {text text' : List Char} {files : Files}

/-! ## One file -/

/-- How loading a file ends is how parsing its text ends. -/
theorem keepsFile_iff_parse (hfile : files path = some text) :
    KeepsFile path text (loadPreferences write [path] files) ↔
      ((parseTomlConfig write text path files).2 path = some text ∨
        ∃ text' ∈ (parseTomlConfig write text path files).2 path, Rewrites text text') ∧
      ∀ e, (parseTomlConfig write text path files).1 = .error e →
        (parseTomlConfig write text path files).2 path = some text := by
  simp only [loadPreferences, loadFrom, hfile]
  generalize parseTomlConfig write text path files = parsed
  obtain ⟨result, files'⟩ := parsed
  cases result with
  | error e =>
    constructor
    · intro h
      exact ⟨h.kept, fun _ _ => h.unchanged _ rfl⟩
    · intro h
      exact ⟨h.1, fun _ _ => h.2 e rfl⟩
  | ok config =>
    constructor
    · intro h
      exact ⟨h.kept, fun _ he => nomatch he⟩
    · intro h
      exact ⟨h.1, fun _ he => nomatch he⟩

/-- A config of the current schema is left as it is, also when it is not valid. -/
theorem keepsFile_of_current (hfile : files path = some text) (h : (fromStr PrefsObject text).isSome) :
    KeepsFile path text (loadPreferences write [path] files) := by
  obtain ⟨config, hconfig⟩ := Option.isSome_iff_exists.1 h
  have hparse : parseTomlConfig write text path files = (config.validate, files) := by rw [parseTomlConfig, hconfig]
  rw [keepsFile_iff_parse hfile, hparse]
  exact ⟨Or.inl hfile, fun _ _ => hfile⟩

/-- A text of neither schema is left as it is. -/
theorem keepsFile_of_neither (hfile : files path = some text) (h : fromStr PrefsObject text = none)
    (hold : fromStr PrefsObjectOld text = none) : KeepsFile path text (loadPreferences write [path] files) := by
  have hparse : parseTomlConfig write text path files = (.error .parse, files) := by
    rw [parseTomlConfig, h]
    simp only [hold]
  rw [keepsFile_iff_parse hfile, hparse]
  exact ⟨Or.inl hfile, fun _ _ => hfile⟩

variable {old : PrefsObjectOld}

/-- A converted config that could not be written is kept exactly if the failure left the old text. -/
theorem keepsFile_iff_of_failed {left : Option (List Char)} (hfile : files path = some text)
    (h : fromStr PrefsObject text = none) (hold : fromStr PrefsObjectOld text = some old)
    (hprint : Crates.print (PrefsObject.ofOld old).doc = some text') (hwrite : write path = .failed left) :
    KeepsFile path text (loadPreferences write [path] files) ↔ left = some text := by
  have hparse : parseTomlConfig write text path files =
      (.error (.converting (.write path)), Function.update files path left) := by
    rw [parseTomlConfig, h]
    simp only [hold, savePreferences, hprint, hwrite]
  rw [keepsFile_iff_parse hfile, hparse]
  simp only [Function.update_self]
  constructor
  · intro hk
    exact hk.2 _ rfl
  · intro hleft
    exact ⟨Or.inl hleft, fun _ _ => hleft⟩

/-- A converted config that was written is kept exactly if the older schema covers the document. -/
theorem keepsFile_iff_of_done {doc : List (String × Value)} (hlossy : ∀ s, Crates.toStrLossy (utf8 s) = s)
    (hfile : files path = some text) (h : fromStr PrefsObject text = none) (hdoc : Crates.parse text = some doc)
    (hold : fromStr PrefsObjectOld text = some old) (hprint : Crates.print (PrefsObject.ofOld old).doc = some text')
    (hback : Crates.parse text' = some (PrefsObject.ofOld old).doc) (hwrite : write path = .done) :
    KeepsFile path text (loadPreferences write [path] files) ↔ PrefsObjectOld.Covers doc := by
  have hparse : parseTomlConfig write text path files =
      (.ok (.ofOld old), Function.update files path (some text')) := by
    rw [parseTomlConfig, h]
    simp only [hold, savePreferences, hprint, hwrite, PrefsObject.validate_ofOld]
  have hread : fromStr PrefsObject text' = some (.ofOld old) := by
    rw [fromStr, hback]
    exact PrefsObject.de_doc rfl
  have hde : de (.table doc) = some old := by rwa [fromStr, hdoc] at hold
  rw [keepsFile_iff_parse hfile, hparse, ← PrefsObject.agrees_ofOld_iff hlossy hde]
  simp only [Function.update_self]
  constructor
  · rintro ⟨hsame | ⟨text'', ht, doc', hdoc', p, hp, hagrees⟩, -⟩
    · -- the text that was written is a config of the current schema, the text that was there is not
      rw [Option.some.inj hsame, h] at hread
      cases hread
    · cases ht
      rw [Option.mem_def, hdoc] at hdoc'
      cases hdoc'
      rw [Option.mem_def, hread] at hp
      cases hp
      exact hagrees
  · intro hagrees
    exact ⟨Or.inr ⟨text', rfl, doc, hdoc, _, hread, hagrees⟩, fun _ he => nomatch he⟩

end

/-! ## Every text -/

/-- Loading keeps a file exactly if its text is a config of the current schema or of neither; or if it is converted, the older
schema covers its document, and the conversion is written; or if the write fails and leaves the text. -/
theorem loadPreferences_keepsFile_iff [Crates] (write : Bytes → WriteOutcome) (path : Bytes) (text : List Char) (files : Files)
    (hfile : files path = some text) (hlossy : ∀ s, Crates.toStrLossy (utf8 s) = s)
    (hback : ∀ old ∈ fromStr PrefsObjectOld text, ∃ text' ∈ Crates.print (PrefsObject.ofOld old).doc,
      Crates.parse text' = some (PrefsObject.ofOld old).doc) :
    KeepsFile path text (loadPreferences write [path] files) ↔
      (fromStr PrefsObject text).isSome ∨ fromStr PrefsObjectOld text = none ∨
        (write path = .done ∧ ∃ doc ∈ Crates.parse text, PrefsObjectOld.Covers doc) ∨ write path = .failed (some text) := by
  cases h : fromStr PrefsObject text with
  | some config =>
    simp only [Option.isSome_some, true_or, iff_true]
    exact keepsFile_of_current hfile (by rw [h]; rfl)
  | none =>
    cases hold : fromStr PrefsObjectOld text with
    | none =>
      simp only [true_or, or_true, iff_true]
      exact keepsFile_of_neither hfile h hold
    | some old =>
      obtain ⟨text', hprint, hparse⟩ := hback old hold
      obtain ⟨doc, hdoc, -⟩ := Option.bind_eq_some_iff.1 hold
      cases hwrite : write path with
      | done =>
        rw [keepsFile_iff_of_done hlossy hfile h hdoc hold hprint hparse hwrite, hdoc]
        simp
      | failed left =>
        rw [keepsFile_iff_of_failed hfile h hold hprint hwrite]
        simp

/-! ## Two files -/

/-- The crates, as they are on a text and on the text that its conversion is printed as. -/
@[reducible]
def cratesOn (text text' : List Char) (doc doc' : List (String × Value)) : Crates where
  parse t := if t = text then some doc else if t = text' then some doc' else none
  print _ := some text'
  toStrLossy := decodeUtf8
  parseIpv4Net _ := none
  showIpv4Net _ := []

/-- The preferences of a config with one action that has a description, in the older schema. -/
def oldPrefs (description : List Char) : PrefsObjectOld where
  alpine := {}
  customActions := .ofList [("backup", ⟨.ofText description, .ofText [], .ofText [], .ofText [], [], [], []⟩)]
  images := .ofList []
  gvproxy := {}
  krun := {}
  misc := {}
  logLevelNumeric := none
  numVcpus := none
  ramSizeMib := none

/-- The text that the conversion of these preferences is printed as. -/
def convertedText (description : String) : List Char :=
  "[alpine]\ncustom_packages = []\n\n[custom_actions.backup]\ndescription = \"".toList ++ description.toList ++
    ("\"\nbefore_mount = \"\"\nafter_mount = \"\"\nbefore_unmount = \"\"\nenvironment = []\ncapture_environment = []\n" ++
      "override_nfs_export = \"\"\nnfs_export_subdirs = []\n\n[images]\n\n[gvproxy]\n\n[krun]\n\n[misc]\n\n[network]\n\n" ++
      "[linux]\n\n[freebsd]\n").toList

/-- The document of that text. -/
def convertedDoc (description : List Char) : List (String × Value) :=
  [("alpine", .table [("custom_packages", .array [])]),
    ("custom_actions", .table [("backup", .table [("description", .str description), ("before_mount", .str []),
      ("after_mount", .str []), ("before_unmount", .str []), ("environment", .array []), ("capture_environment", .array []),
      ("override_nfs_export", .str []), ("nfs_export_subdirs", .array [])])]),
    ("images", .table []), ("gvproxy", .table []), ("krun", .table []), ("misc", .table []), ("network", .table []),
    ("linux", .table []), ("freebsd", .table [])]

theorem doc_ofOld_oldPrefs [Crates] (hlossy : ∀ s, Crates.toStrLossy (utf8 s) = s) (description : List Char) :
    (PrefsObject.ofOld (oldPrefs description)).doc = convertedDoc description := by
  have h : PrefsObject.ofOld (oldPrefs description) =
      { customActions := .ofList [("backup", { description := description })] } := by
    simp only [PrefsObject.ofOld, oldPrefs]
    congr 1
    simp only [BTreeMap.map, BTreeMap.ofList, List.foldr_cons, List.foldr_nil, insertEntry, List.map_cons, List.map_nil,
      CustomActionConfig.ofOld, BString.toText, BString.ofText, hlossy]
  rw [h]
  rfl

/-- The config of an action whose description was written as its bytes. -/
def byteStringText : List Char := "[custom_actions.backup]\ndescription = [110, 97, 115]\n".toList

/-- The document of that config. -/
def byteStringDoc : List (String × Value) :=
  [("custom_actions", .table [("backup", .table [("description", .array [.int 110, .int 97, .int 115])])])]

/-- The crates on that config. -/
@[reducible]
def byteStringCrates : Crates :=
  cratesOn byteStringText (convertedText "nas") byteStringDoc (convertedDoc "nas".toList)

theorem covers_byteStringDoc : PrefsObjectOld.Covers byteStringDoc where
  customActions v hv kvs hkvs name w hw := by
    simp only [byteStringDoc, lookup_cons_ite, if_pos, Option.mem_some_iff] at hv
    subst hv
    cases hkvs
    rw [Option.mem_def, lookup_cons_ite] at hw
    split at hw
    · cases hw
      refine ⟨⟨"nas".toList, fun v hv => ?_⟩, ⟨[], .of_eq_none ?_ _⟩, ⟨[], .of_eq_none ?_ _⟩, ⟨[], .of_eq_none ?_ _⟩,
        ⟨[], .of_eq_none ?_ _⟩, ⟨[], .of_eq_none ?_ _⟩, .of_eq_none ?_ _, ?_⟩
      · simp only [Value.setting_table, lookup_cons_ite, if_pos, Option.mem_some_iff] at hv
        subst hv
        decide
      all_goals simp
    · cases hw
  network v hv := by simp [byteStringDoc, lookup_cons_ite] at hv
  linux v hv := by simp [byteStringDoc, lookup_cons_ite] at hv
  freebsd v hv := by simp [byteStringDoc, lookup_cons_ite] at hv

/-- The file of a user. -/
def userFile : Bytes := bytes "/Users/me/.anylinuxfs/config.toml"

/-- A description that was written as its bytes is put back as a text. -/
theorem keepsFile_byteString :
    @KeepsFile byteStringCrates userFile byteStringText
      (@loadPreferences byteStringCrates (fun _ => .done) [userFile] (fun _ => some byteStringText)) := by
  let _ := byteStringCrates
  have hold : fromStr PrefsObjectOld byteStringText = some (oldPrefs "nas".toList) := by decide
  refine (loadPreferences_keepsFile_iff _ _ _ _ rfl decodeUtf8_utf8 ?_).2
    (Or.inr (Or.inr (Or.inl ⟨rfl, byteStringDoc, if_pos rfl, covers_byteStringDoc⟩)))
  intro old h
  rw [Option.mem_def, hold] at h
  cases h
  refine ⟨convertedText "nas", rfl, ?_⟩
  rw [doc_ofOld_oldPrefs decodeUtf8_utf8]
  exact (if_neg (by decide)).trans (if_pos rfl)

/-- The config of a helper of the network and of an action, the system of which is spelled as on the command line. -/
def misspelledText : List Char :=
  "[network]\nhelper = \"vmnet\"\n\n[custom_actions.backup]\nrequired_os = \"linux\"\n".toList

/-- The document of that config. -/
def misspelledDoc : List (String × Value) :=
  [("network", .table [("helper", .str "vmnet".toList)]),
    ("custom_actions", .table [("backup", .table [("required_os", .str "linux".toList)])])]

/-- The crates on that config. -/
@[reducible]
def misspelledCrates : Crates := cratesOn misspelledText (convertedText "") misspelledDoc (convertedDoc [])

/-- One misspelled value, and the file is rewritten without the action's system and without the helper. -/
theorem keepsFile_false :
    ¬ @KeepsFile misspelledCrates userFile misspelledText
      (@loadPreferences misspelledCrates (fun _ => .done) [userFile] (fun _ => some misspelledText)) := by
  let _ := misspelledCrates
  have hnew : (fromStr PrefsObject misspelledText).isNone := by decide
  have hold : fromStr PrefsObjectOld misspelledText = some (oldPrefs []) := by decide
  have hback : Crates.parse (convertedText "") = some (PrefsObject.ofOld (oldPrefs [])).doc := by
    rw [doc_ofOld_oldPrefs decodeUtf8_utf8]
    exact (if_neg (by decide)).trans (if_pos rfl)
  rw [keepsFile_iff_of_done decodeUtf8_utf8 rfl (Option.isNone_iff_eq_none.1 hnew) (if_pos rfl) hold rfl hback rfl]
  intro h
  have hhelper := (h.network (.table [("helper", .str "vmnet".toList)]) rfl).1
  simp at hhelper

end Anylinuxfs
