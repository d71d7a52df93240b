import Anylinuxfs.Preferences

/-!
# Preferences that are written and read

What is written of the converted preferences is read back (`PrefsObject.de_doc`), and the converted preferences agree with the
document they were read from exactly if the older schema covers it (`PrefsObject.agrees_ofOld_iff`).
-/

namespace Anylinuxfs

open Serde

/-! ## Read back -/

instance : LawfulSerde OsType where
  de_ser x := by cases x <;> simp [de, ser, deVariant, List.lookup_cons]

instance : LawfulSerde PassphrasePromptConfig where
  de_ser x := by cases x <;> simp [de, ser, deVariant, List.lookup_cons]

instance : LawfulSerde AlpineConfig where
  de_ser c := by
    change AlpineConfig.deserialize c.serialize = some c
    rw [AlpineConfig.deserialize, AlpineConfig.serialize, fields_record, Option.bind_eq_bind, Option.bind_some,
      required_fieldEntries (x := c.customPackages)]
    · rfl
    all_goals simp

instance : LawfulSerde KernelSource where
  de_ser k := by
    change KernelSource.deserialize k.serialize = some k
    rw [KernelSource.deserialize, KernelSource.serialize, fields_record, Option.bind_eq_bind, Option.bind_some,
      optional_fieldEntries (o := k.bundleUrl), optional_fieldEntries (o := k.imageUrl),
      optional_fieldEntries (o := k.modulesUrl)]
    · rfl
    all_goals simp [List.lookup_cons]

instance : LawfulSerde ImageSource where
  de_ser i := by
    change ImageSource.deserialize i.serialize = some i
    rw [ImageSource.deserialize, ImageSource.serialize, fields_record, Option.bind_eq_bind, Option.bind_some,
      required_fieldEntries (x := i.baseDir), optional_fieldEntries (o := i.dockerRef), optional_fieldEntries (o := i.isoUrl),
      optional_fieldEntries (o := i.ociUrl), required_fieldEntries (x := i.kernel), required_fieldEntries (x := i.osType),
      optional_fieldEntries (o := i.setupScript)]
    · rfl
    all_goals simp [List.lookup_cons]

instance : LawfulSerde GvproxyConfig where
  de_ser c := by
    change GvproxyConfig.deserialize c.serialize = some c
    rw [GvproxyConfig.deserialize, GvproxyConfig.serialize, fields_record, Option.bind_eq_bind, Option.bind_some,
      optional_fieldEntries (o := c.debug)]
    · rfl
    all_goals simp

instance : LawfulSerde KrunConfig where
  de_ser c := by
    change KrunConfig.deserialize c.serialize = some c
    rw [KrunConfig.deserialize, KrunConfig.serialize, fields_record, Option.bind_eq_bind, Option.bind_some,
      optional_fieldEntries (o := c.logLevelNumeric), optional_fieldEntries (o := c.numVcpus),
      optional_fieldEntries (o := c.ramSizeMib)]
    · rfl
    all_goals simp [List.lookup_cons]

instance : LawfulSerde MiscConfig where
  de_ser c := by
    change MiscConfig.deserialize c.serialize = some c
    rw [MiscConfig.deserialize, MiscConfig.serialize, fields_record, Option.bind_eq_bind, Option.bind_some,
      optional_fieldEntries (o := c.passphraseConfig), optional_fieldEntries (o := c.zfsOs)]
    · rfl
    all_goals simp [List.lookup_cons]

instance : LawfulSerde OsConfig where
  de_ser c := by
    change OsConfig.deserialize c.serialize = some c
    rw [OsConfig.deserialize, OsConfig.serialize, fields_record, Option.bind_eq_bind, Option.bind_some,
      optional_fieldEntries (o := c.defaultImage)]
    · rfl
    all_goals simp

instance : LawfulSerde CustomActionConfig where
  de_ser a := by
    change CustomActionConfig.deserialize a.serialize = some a
    rw [CustomActionConfig.deserialize, CustomActionConfig.serialize, fields_record, Option.bind_eq_bind, Option.bind_some,
      default_fieldEntries (x := a.description), default_fieldEntries (x := a.beforeMount),
      default_fieldEntries (x := a.afterMount), default_fieldEntries (x := a.beforeUnmount),
      default_fieldEntries (x := a.environment), default_fieldEntries (x := a.captureEnvironment),
      default_fieldEntries (x := a.overrideNfsExport), default_fieldEntries (x := a.nfsExportSubdirs),
      optional_fieldEntries (o := a.requiredOs)]
    · rfl
    all_goals simp [List.lookup_cons]

section

variable [Crates]

/-- The document of converted preferences, which have no settings of the network, is read as these preferences. -/
theorem PrefsObject.de_doc {p : PrefsObject} (h : p.network = {}) : de (.table p.doc) = some p := by
  have hnetwork (fs : List (String × Option Value)) (hfs : (fs.map Prod.fst).Nodup)
      (hl : (fs.lookup "network").join = some (ser p.network)) :
      (Fields.named (fieldEntries fs)).default {} 6 "network" = some p.network := by
    rw [Fields.default, Fields.get, lookup_fieldEntries hfs, hl, h]
    rfl
  change PrefsObject.deserialize (.table p.doc) = some p
  rw [PrefsObject.deserialize, PrefsObject.doc, Value.fields, Value.entries, Option.map_some, Option.bind_eq_bind,
    Option.bind_some, default_fieldEntries (x := p.alpine), default_fieldEntries (x := p.customActions),
    default_fieldEntries (x := p.images), default_fieldEntries (x := p.gvproxy), default_fieldEntries (x := p.krun),
    default_fieldEntries (x := p.misc), hnetwork, default_fieldEntries (x := p.linux), default_fieldEntries (x := p.freebsd),
    optional_fieldEntries (o := p.logLevelNumeric), optional_fieldEntries (o := p.numVcpus),
    optional_fieldEntries (o := p.ramSizeMib)]
  · rfl
  all_goals simp [List.lookup_cons]

end

/-! ## What is read agrees -/

section

variable {v : Value}

theorem AlpineConfig.agrees_of_de {c : AlpineConfig} (h : de v = some c) : c.Agrees v := by
  change AlpineConfig.deserialize v = some c at h
  simp only [AlpineConfig.deserialize, Option.bind_eq_bind, Option.bind_eq_some_iff] at h
  obtain ⟨f, hf, _, h₁, h⟩ := h
  cases h
  exact ⟨Value.kept_of_required hf h₁⟩

theorem KernelSource.agrees_of_de {k : KernelSource} (h : de v = some k) : k.Agrees v := by
  change KernelSource.deserialize v = some k at h
  simp only [KernelSource.deserialize, Option.bind_eq_bind, Option.bind_eq_some_iff] at h
  obtain ⟨f, hf, _, h₁, _, h₂, _, h₃, h⟩ := h
  cases h
  exact ⟨Value.kept_of_optional hf h₁, Value.kept_of_optional hf h₂, Value.kept_of_optional hf h₃⟩

theorem ImageSource.agrees_of_de {i : ImageSource} (h : de v = some i) : i.Agrees v := by
  change ImageSource.deserialize v = some i at h
  simp only [ImageSource.deserialize, Option.bind_eq_bind, Option.bind_eq_some_iff] at h
  obtain ⟨f, hf, _, h₁, _, h₂, _, h₃, _, h₄, _, h₅, _, h₆, _, h₇, h⟩ := h
  cases h
  exact ⟨Value.kept_of_required hf h₁, Value.kept_of_optional hf h₂, Value.kept_of_optional hf h₃,
    Value.kept_of_optional hf h₄, fun k hk => KernelSource.agrees_of_de (Value.kept_of_required hf h₅ k hk),
    Value.kept_of_required hf h₆, Value.kept_of_optional hf h₇⟩

theorem GvproxyConfig.agrees_of_de {c : GvproxyConfig} (h : de v = some c) : c.Agrees v := by
  change GvproxyConfig.deserialize v = some c at h
  simp only [GvproxyConfig.deserialize, Option.bind_eq_bind, Option.bind_eq_some_iff] at h
  obtain ⟨f, hf, _, h₁, h⟩ := h
  cases h
  exact ⟨Value.kept_of_optional hf h₁⟩

theorem KrunConfig.agrees_of_de {c : KrunConfig} (h : de v = some c) : c.Agrees v := by
  change KrunConfig.deserialize v = some c at h
  simp only [KrunConfig.deserialize, Option.bind_eq_bind, Option.bind_eq_some_iff] at h
  obtain ⟨f, hf, _, h₁, _, h₂, _, h₃, h⟩ := h
  cases h
  exact ⟨Value.kept_of_optional hf h₁, Value.kept_of_optional hf h₂, Value.kept_of_optional hf h₃⟩

theorem MiscConfig.agrees_of_de {c : MiscConfig} (h : de v = some c) : c.Agrees v := by
  change MiscConfig.deserialize v = some c at h
  simp only [MiscConfig.deserialize, Option.bind_eq_bind, Option.bind_eq_some_iff] at h
  obtain ⟨f, hf, _, h₁, _, h₂, h⟩ := h
  cases h
  exact ⟨Value.kept_of_optional hf h₁, Value.kept_of_optional hf h₂⟩

theorem OsConfig.agrees_empty_iff : ({} : OsConfig).Agrees v ↔ v.setting 0 "default_image" = none :=
  ⟨fun h => h.defaultImage.eq_none, fun h => ⟨.of_eq_none h _⟩⟩

theorem NetworkPrefs.agrees_empty_iff [Crates] : ({} : NetworkPrefs).Agrees v ↔
    v.setting 0 "helper" = none ∧ v.setting 1 "vmnet_pool" = none ∧ v.setting 2 "vmnet_offloading" = none :=
  ⟨fun h => ⟨h.helper.eq_none, h.vmnetPool.eq_none, h.vmnetOffloading.eq_none⟩,
    fun h => ⟨.of_eq_none h.1 _, .of_eq_none h.2.1 _, .of_eq_none h.2.2 _⟩⟩

end

/-! ## The conversion -/

section

variable [Crates] {setting : Option Value}

/-- A text keeps its setting through the conversion exactly if its bytes are a text. -/
theorem kept_toText_iff (hlossy : ∀ s, Crates.toStrLossy (utf8 s) = s) {b : BString} (hb : Kept setting b) :
    Kept setting (BString.ofText b.toText) ↔ ∃ s, Kept setting (BString.ofText s) := by
  constructor
  · intro h
    exact ⟨_, h⟩
  · rintro ⟨s, hs⟩ v hv
    have hbs : b = BString.ofText s := Option.some.inj ((hb v hv).symm.trans (hs v hv))
    have ht : b.toText = s := by rw [hbs, BString.toText, BString.ofText, hlossy]
    rw [ht]
    exact hs v hv

/-- A list of texts keeps its setting through the conversion exactly if the bytes of each are a text. -/
theorem kept_map_toText_iff (hlossy : ∀ s, Crates.toStrLossy (utf8 s) = s) {bs : List BString} (hb : Kept setting bs) :
    Kept setting ((bs.map BString.toText).map BString.ofText) ↔
      ∃ ss : List (List Char), Kept setting (ss.map BString.ofText) := by
  constructor
  · intro h
    exact ⟨_, h⟩
  · rintro ⟨ss, hs⟩ v hv
    have hbs : bs = ss.map BString.ofText := Option.some.inj ((hb v hv).symm.trans (hs v hv))
    have ht : bs.map BString.toText = ss := by
      rw [hbs, List.map_map]
      exact (List.map_congr_left (fun s _ => hlossy s)).trans (List.map_id ss)
    rw [ht]
    exact hs v hv

/-- A converted action agrees with its section exactly if the older schema covers the section. -/
theorem CustomActionConfig.agrees_ofOld_iff (hlossy : ∀ s, Crates.toStrLossy (utf8 s) = s) {v : Value}
    {old : CustomActionConfigOld} (h : de v = some old) :
    (CustomActionConfig.ofOld old).Agrees v ↔ CustomActionConfigOld.Covers v := by
  change CustomActionConfigOld.deserialize v = some old at h
  simp only [CustomActionConfigOld.deserialize, Option.bind_eq_bind, Option.bind_eq_some_iff] at h
  obtain ⟨f, hf, _, h₁, _, h₂, _, h₃, _, h₄, _, h₅, _, h₆, _, h₇, h⟩ := h
  cases h
  have k₁ := kept_toText_iff hlossy (Value.kept_of_default hf h₁)
  have k₂ := kept_toText_iff hlossy (Value.kept_of_default hf h₂)
  have k₃ := kept_toText_iff hlossy (Value.kept_of_default hf h₃)
  have k₄ := kept_toText_iff hlossy (Value.kept_of_default hf h₄)
  have k₅ := kept_map_toText_iff hlossy (Value.kept_of_default hf h₅)
  have k₆ := kept_map_toText_iff hlossy (Value.kept_of_default hf h₆)
  constructor
  · intro ha
    exact ⟨k₁.1 ha.description, k₂.1 ha.beforeMount, k₃.1 ha.afterMount, k₄.1 ha.beforeUnmount, k₅.1 ha.environment,
      k₆.1 ha.captureEnvironment, ha.nfsExportSubdirs, ha.requiredOs.eq_none⟩
  · intro hc
    exact ⟨k₁.2 hc.description, k₂.2 hc.beforeMount, k₃.2 hc.afterMount, k₄.2 hc.beforeUnmount, k₅.2 hc.environment,
      k₆.2 hc.captureEnvironment, Value.kept_of_default hf h₇, hc.nfsExportSubdirs, .of_eq_none hc.requiredOs _⟩

/-- Converted actions agree with their section exactly if the older schema covers each of them. -/
theorem entriesAgree_ofOld_iff (hlossy : ∀ s, Crates.toStrLossy (utf8 s) = s) {v : Value}
    {m : BTreeMap CustomActionConfigOld} (h : de v = some m) :
    EntriesAgree CustomActionConfig.Agrees v (m.map .ofOld) ↔
      ∀ kvs ∈ v.entries, ∀ name, ∀ w ∈ kvs.lookup name, CustomActionConfigOld.Covers w := by
  constructor
  · intro ha kvs hkvs name w hw
    obtain ⟨old, hold, hde⟩ := BTreeMap.exists_get_of_de h hkvs hw
    obtain ⟨a, hget, hagrees⟩ := ha kvs hkvs name w hw
    rw [BTreeMap.get_map, hold] at hget
    cases hget
    exact (CustomActionConfig.agrees_ofOld_iff hlossy hde).1 hagrees
  · intro hc kvs hkvs name w hw
    obtain ⟨old, hold, hde⟩ := BTreeMap.exists_get_of_de h hkvs hw
    refine ⟨.ofOld old, ?_, (CustomActionConfig.agrees_ofOld_iff hlossy hde).2 (hc kvs hkvs name w hw)⟩
    rw [BTreeMap.get_map, hold]
    rfl

/-- Converted preferences agree with their document exactly if the older schema covers it. -/
theorem PrefsObject.agrees_ofOld_iff (hlossy : ∀ s, Crates.toStrLossy (utf8 s) = s) {doc : List (String × Value)}
    {old : PrefsObjectOld} (h : de (.table doc) = some old) :
    (PrefsObject.ofOld old).Agrees doc ↔ PrefsObjectOld.Covers doc := by
  change PrefsObjectOld.deserialize (.table doc) = some old at h
  simp only [PrefsObjectOld.deserialize, Option.bind_eq_bind, Option.bind_eq_some_iff] at h
  obtain ⟨f, hf, _, h₁, _, h₂, _, h₃, _, h₄, _, h₅, _, h₆, _, h₇, _, h₈, _, h₉, h⟩ := h
  cases h
  have hactions := Value.kept_of_default hf h₂
  constructor
  · intro ha
    exact {
      customActions := fun v hv => (entriesAgree_ofOld_iff hlossy (hactions v hv)).1 (ha.customActions v hv)
      network := fun v hv => NetworkPrefs.agrees_empty_iff.1 (ha.network v hv)
      linux := fun v hv => OsConfig.agrees_empty_iff.1 (ha.linux v hv)
      freebsd := fun v hv => OsConfig.agrees_empty_iff.1 (ha.freebsd v hv) }
  · intro hc
    exact {
      alpine := fun v hv => AlpineConfig.agrees_of_de (Value.kept_of_default hf h₁ v hv)
      customActions := fun v hv => (entriesAgree_ofOld_iff hlossy (hactions v hv)).2 (hc.customActions v hv)
      images := fun v hv kvs hkvs name w hw => by
        obtain ⟨i, hi, hde⟩ := BTreeMap.exists_get_of_de (Value.kept_of_default hf h₃ v hv) hkvs hw
        exact ⟨i, hi, ImageSource.agrees_of_de hde⟩
      gvproxy := fun v hv => GvproxyConfig.agrees_of_de (Value.kept_of_default hf h₄ v hv)
      krun := fun v hv => KrunConfig.agrees_of_de (Value.kept_of_default hf h₅ v hv)
      misc := fun v hv => MiscConfig.agrees_of_de (Value.kept_of_default hf h₆ v hv)
      network := fun v hv => NetworkPrefs.agrees_empty_iff.2 (hc.network v hv)
      linux := fun v hv => OsConfig.agrees_empty_iff.2 (hc.linux v hv)
      freebsd := fun v hv => OsConfig.agrees_empty_iff.2 (hc.freebsd v hv)
      logLevelNumeric := Value.kept_of_optional hf h₇
      numVcpus := Value.kept_of_optional hf h₈
      ramSizeMib := Value.kept_of_optional hf h₉ }

/-- A converted config has nothing that is not valid. -/
theorem PrefsObject.validate_ofOld (old : PrefsObjectOld) : (PrefsObject.ofOld old).validate = .ok (.ofOld old) := by
  have hactions (l : List (String × CustomActionConfigOld)) :
      (l.map (fun e => (e.1, CustomActionConfig.ofOld e.2))).forM (fun e : String × CustomActionConfig =>
        e.2.validate.mapError (PrefsError.invalidAction e.1) >>= fun _ => .ok ()) = .ok () := by
    induction l with
    | nil => rfl
    | cons e l ih => exact ih
  change (do
    ((old.customActions.map CustomActionConfig.ofOld).entries.forM (fun e : String × CustomActionConfig =>
      e.2.validate.mapError (PrefsError.invalidAction e.1) >>= fun _ => .ok ()))
    pure (PrefsObject.ofOld old)) = _
  rw [BTreeMap.map, hactions]
  rfl

end

end Anylinuxfs
