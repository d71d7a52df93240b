import Anylinuxfs.Lib.Fill

/-!
# The upgrade of a config file

`merge_toml_configs` of `settings.rs`: what the config of the user has and the default config has not is added to the default
config. A document is a table of items in their order; comments, positions and how keys are written are left out.
-/

namespace Anylinuxfs

namespace ConfigUpgrade

/-! ## Documents -/

/-- `toml_edit::Value`: a value other than an array or an inline table is its text. -/
inductive Value where
  | scalar (text : String)
  | array (values : List Value)
  | inlineTable (entries : List (String × Value))

/-- `toml_edit::Item`. -/
inductive Item where
  | value (v : Value)
  | table (entries : List (String × Item))
  | arrayOfTables (tables : List (List (String × Item)))

/-- The entries of a `toml_edit::Table`. -/
abbrev Table := List (String × Item)

/-- A step on the way to a part of a document. -/
inductive Step where
  | key (k : String)
  | index (i : Nat)
  deriving DecidableEq, Repr

/-- A part of a value. -/
def Value.child : Value → Step → Option Value
  | .inlineTable entries, .key k => entries.lookup k
  | .array values, .index i => values[i]?
  | _, _ => none

/-- A part of an item. -/
def Item.child : Item → Step → Option Item
  | .value v, step => (v.child step).map .value
  | .table entries, .key k => entries.lookup k
  | .arrayOfTables tables, .index i => tables[i]?.map .table
  | _, _ => none

/-- The item has a part at the end of the path. -/
def Item.HasPath (item : Item) (path : List Step) : Prop := (path.foldlM Item.child item).isSome = true

instance (item : Item) (path : List Step) : Decidable (item.HasPath path) := inferInstanceAs (Decidable (_ = true))

/-! ## The merge -/

/-- `OBSOLETE_KEYS`. -/
def obsoleteKeys : List String := ["images.freebsd-14.3"]

/-- The key with the path of its table. -/
def absKey (path key : String) : String := if path = "" then key else path ++ "." ++ key

/-- `merge_toml_tables`. -/
def mergeTomlTables (dst src : Table) (path : String) : Table :=
  src.foldl (fun dst (key, srcItem) =>
    -- "only add src items not present in dst"
    if dst.any fun e => e.1 == key then dst
    else if absKey path key ∉ obsoleteKeys then dst ++ [(key, srcItem)] else dst) dst

/-- How a merge fails. -/
inductive MergeError where
  /-- "source item is not a value" -/
  | notAValue
  /-- "source item is not a table" -/
  | notATable
  /-- The panic of `unimplemented!`. -/
  | unimplemented
  deriving DecidableEq, Repr

/-- An item that both documents have under a key. -/
def mergeItem (key : String) : Item → Item → Except MergeError Item
  | .value _, .value v => .ok (.value v)
  | .value _, _ => .error .notAValue
  | .table table, .table src => .ok (.table (mergeTomlTables table src key))
  | .table _, _ => .error .notATable
  | .arrayOfTables _, _ => .error .unimplemented

/-- A turn of the first loop of `merge_toml_configs`. -/
def mergeEntry (src : Table) : String × Item → Except MergeError (String × Item) := fun (key, dstItem) =>
  match src.lookup key with
  | none => .ok (key, dstItem)
  | some srcItem => (mergeItem key dstItem srcItem).map fun item => (key, item)

/-- `merge_toml_configs`. -/
def mergeTomlConfigs (dst src : Table) : Except MergeError Table := do
  let dst ← dst.mapM (mergeEntry src)
  pure (mergeTomlTables dst src "")

/-- A default config: its keys differ, and it has no arrays of tables at its top. -/
structure DefaultConfig where
  entries : Table
  distinct : (entries.map Prod.fst).Nodup
  plain : ∀ entry ∈ entries, ∀ tables, entry.2 ≠ .arrayOfTables tables

/-! ## What is asked of the merge -/

/-- The path of an obsolete key, or a path below it. -/
inductive Obsolete : List Step → Prop
  | top {key : String} (h : key ∈ obsoleteKeys) (rest : List Step) : Obsolete (.key key :: rest)
  | nested {key k : String} (h : absKey key k ∈ obsoleteKeys) (rest : List Step) : Obsolete (.key key :: .key k :: rest)

/-- The paths of the user are in the merged document, and merging that again does not change it. -/
structure KeepsPaths (default : DefaultConfig) (user merged : Table) : Prop where
  kept : ∀ path, ¬ Obsolete path → (Item.table user).HasPath path → (Item.table merged).HasPath path
  again : mergeTomlConfigs default.entries merged = .ok merged

/-- The default config has an item under a key of one of its tables, where the path goes through, and that does not have the rest of
the path. -/
inductive Replaced (default : DefaultConfig) : List Step → Prop
  | below {key k : String} {table : Table} {item : Item} {rest : List Step} (htable : default.entries.lookup key = some (.table table))
    (hitem : table.lookup k = some item) (hrest : ¬ item.HasPath rest) : Replaced default (.key key :: .key k :: rest)

/-- The paths of the user that are not replaced are in the merged document, no others, and merging that again does not change it. -/
structure KeepsUnreplaced (default : DefaultConfig) (user merged : Table) : Prop where
  kept : ∀ path, ¬ Obsolete path → (Item.table user).HasPath path → ((Item.table merged).HasPath path ↔ ¬ Replaced default path)
  again : mergeTomlConfigs default.entries merged = .ok merged

/-! ## The default config -/

/-- A string. -/
def text (s : String) : Item := .value (.scalar s)

/-- `etc/anylinuxfs.toml`. -/
def anylinuxfsToml : Table :=
  let kernel := ("kernel", Item.table [
    ("image_url", text "https://github.com/nohajc/libkrunfw/releases/download/v6.12.62-rev1/linux-aarch64-Images-v6.12.62-anylinuxfs.tar.gz"),
    ("modules_url", text "https://github.com/nohajc/libkrunfw/releases/download/v6.12.62-rev1/modules.squashfs")])
  let freebsd := fun (version url ociUrl bundleUrl : String) => ("freebsd-" ++ version, Item.table [
    ("base_dir", text ("freebsd-" ++ version)), ("iso_url", text url), ("oci_url", text ociUrl),
    ("kernel", .table [("bundle_url", text bundleUrl)]), ("os_type", text "FreeBSD")])
  [("images", .table [
      ("alpine-latest", .table [("base_dir", text "alpine"), ("docker_ref", text "alpine:latest"), kernel, ("os_type", text "Linux")]),
      ("alpine-edge", .table [("base_dir", text "alpine-edge"), ("docker_ref", text "alpine:edge"), kernel, ("os_type", text "Linux"),
        ("setup_script", text "echo '@testing https://dl-cdn.alpinelinux.org/alpine/edge/testing' >> /etc/apk/repositories")]),
      freebsd "15.0" "https://download.freebsd.org/releases/ISO-IMAGES/15.0/FreeBSD-15.0-RELEASE-arm64-aarch64-bootonly.iso"
        "https://download.freebsd.org/releases/OCI-IMAGES/15.0-RELEASE/aarch64/Latest/FreeBSD-15.0-RELEASE-arm64-aarch64-container-image-runtime.txz"
        "https://github.com/nohajc/freebsd/releases/download/alfs%2F15.0/kernel.txz",
      freebsd "15.1" "https://download.freebsd.org/releases/ISO-IMAGES/15.1/FreeBSD-15.1-RELEASE-arm64-aarch64-bootonly.iso"
        "https://download.freebsd.org/releases/OCI-IMAGES/15.1-RELEASE/aarch64/Latest/FreeBSD-15.1-RELEASE-arm64-aarch64-container-image-runtime.txz"
        "https://github.com/nohajc/freebsd/releases/download/alfs%2F15.1/kernel.txz"]),
    ("custom_actions", .table [("ubuntu_zfs_unlock", .table [
      ("description", text "Mount ZFS keystore encrypted with LUKS to unlock Ubuntu system disk"),
      ("before_mount", text "cryptsetup open /dev/zd0 ks0 && mkdir -p $KS && mount /dev/mapper/ks0 $KS"),
      ("after_mount", text ""),
      ("before_unmount", text "umount /dev/mapper/ks0 && cryptsetup close ks0"),
      ("environment", .value (.array [.scalar "KS=/run/keystore/rpool"])),
      ("capture_environment", .value (.array [])),
      ("override_nfs_export", text ""),
      ("required_os", text "Linux")])]),
    ("linux", .table [("default_image", text "alpine-latest")]),
    ("freebsd", .table [("default_image", text "freebsd-15.1")]),
    ("network", .table [("helper", text "vmnet")]),
    ("misc", .table [("zfs_os", text "FreeBSD")])]

/-- The default config of macOS. -/
def defaultConfig : DefaultConfig where
  entries := anylinuxfsToml
  distinct := by decide
  plain := by
    intro entry hentry
    simp only [anylinuxfsToml, List.mem_cons, List.not_mem_nil, or_false] at hentry
    rcases hentry with rfl | rfl | rfl | rfl | rfl | rfl <;> exact nofun

end ConfigUpgrade

end Anylinuxfs
