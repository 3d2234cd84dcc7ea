import BuildRules.Configuration.Manifest.Codec
import BuildRules.Proofs.Document.Fields

/-!
# Manifests are read back as they are written

The written form of a manifest that was read gives the same manifest again. Only numbers have
bounds, and a manifest that was read keeps to them (`Manifest.inRange_of_ofDocument?`); whatever
else it declares is read back from its written form. Main statement: `Manifest.read_back`.
-/

namespace BuildRules

open Document

variable {dialect : Dialect}

/-! ## Flags and settings -/

namespace FlagValue

/-- An integer is one of 64 bits. -/
def InRange : FlagValue → Prop
  | int value => -9223372036854775808 ≤ value ∧ value < 9223372036854775808
  | _ => True

theorem ofDocument?_toDocument {value : FlagValue} (h : value.InRange) :
    ofDocument? value.toDocument = some value := by
  cases value with
  | bool _ => rfl
  | int n => simpa [toDocument, ofDocument?, int64?, intBetween?, InRange] using h
  | text _ => rfl
  | list values =>
    -- a flag reads its texts without asking for a list first, so unfold to what `texts?` does
    have hvalues := texts?_texts values
    simp only [texts?, listOf?, texts, list?, Option.bind_some] at hvalues
    simp [toDocument, texts, ofDocument?, hvalues]

theorem inRange_of_ofDocument? {d : Document} {value : FlagValue}
    (h : ofDocument? d = some value) : value.InRange := by
  unfold ofDocument? at h
  split at h
  · cases h
    trivial
  · cases h
    trivial
  · obtain ⟨values, -, rfl⟩ := Option.map_eq_some_iff.1 h
    trivial
  · obtain ⟨n, hn, rfl⟩ := Option.map_eq_some_iff.1 h
    exact intBetween?_eq_some hn

end FlagValue

namespace Settings

/-- The numbers in settings are of 64 bits. -/
structure InRange (s : Settings) : Prop where
  jobs : ∀ n ∈ s.jobs, n < 18446744073709551616
  flags : ∀ e ∈ s.flags.toList, e.2.InRange

theorem inRange_default : InRange {} := ⟨nofun, nofun⟩

theorem inRange_of_ofDocument? {d : Document} {s : Settings} (h : ofDocument? dialect d = some s) :
    s.InRange := by
  simp only [ofDocument?, Option.bind_eq_bind, Option.bind_eq_some_iff] at h
  obtain ⟨f, -, platform, -, host, -, jobs, hjobs, extra, -, flags, hflags, h⟩ := h
  cases h
  have hvalues : ∀ d m, mapOf? FlagValue.ofDocument? d = some m → ∀ e ∈ m.toList, e.2.InRange :=
    fun _ _ => forall_of_mapOf? fun _ _ => FlagValue.inRange_of_ofDocument?
  exact ⟨Fields.forall_of_optional (fun _ _ => nat64?_lt) hjobs,
    Fields.of_withDefault (P := fun m => ∀ e ∈ m.toList, e.2.InRange) hvalues nofun hflags⟩

theorem ofDocument?_toDocument {s : Settings} (h : s.InRange) :
    ofDocument? dialect s.toDocument = some s := by
  unfold ofDocument? toDocument
  rw [ifSome_natCast]
  refine bind_fields?_table (by simp [keys]) fun f horder hgiven => ?_
  obtain ⟨hplatform, hhost, hjobs, hextra, hflags⟩ :
      f.Gives "default_platform" (ifSome "default_platform" .text s.defaultPlatform) ∧
      f.Gives "host_platform" (ifSome "host_platform" .text s.hostPlatform) ∧
      f.Gives "jobs" (ifSome "jobs" (fun n : Nat => .int n) s.jobs) ∧
      f.Gives "extra_rustc_flags" (ifNonempty "extra_rustc_flags" s.extraFlags) ∧
      f.Gives "flags" (ifEntries "flags" FlagValue.toDocument s.flags) := by
    simp [Fields.Gives, hgiven, List.lookup_append]
  have hnumber : ∀ n ∈ s.jobs, orNull? nat64? (.int n) = some (some n) := fun n hn => by
    simp [orNull?, nat64?_int (h.jobs n hn)]
  have hvalues : ∀ e ∈ s.flags.toList, FlagValue.ofDocument? e.2.toDocument = some e.2 :=
    fun e he => FlagValue.ofDocument?_toDocument (h.flags e he)
  simp [hplatform.optional text? horder fun _ _ => rfl, hhost.optional text? horder fun _ _ => rfl,
    hjobs.optional nat64? horder hnumber, hextra.texts, hflags.map _ hvalues]

end Settings

/-! ## Declarations -/

theorem orNull?_conditions (conditions : Conditions) :
    orNull? (mapOf? texts?) (ofMap .texts conditions) = some (some conditions) := by
  have hmap : mapOf? texts? (ofMap .texts conditions) = some conditions :=
    mapOf?_ofMap fun e _ => texts?_texts e.2
  simpa [orNull?, ofMap] using hmap

namespace Declaration

variable {f : Fields} {d : Declaration}

theorem keysIn_entries (d : Declaration) : KeysIn keys d.entries := by
  simp [entries, keys]

/-- A declaration is read from any record that gives its name and, for the other fields, what its
entries give. -/
theorem ofFields?_eq_some (horder : f.inOrder = false)
    (hname : f.Gives "name" [("name", .text d.name)])
    (hrest : ∀ key ∈ keys, f.Gives key d.entries) : ofFields? f = some d := by
  -- each key has one block among the entries
  obtain ⟨hsrcs, hroot, hedition, hversion, hfeatures, hmap, hflags, henv, htags, hdeps,
      hprocMacro, hoptional, haliases, hcompatible⟩ :
      f.Gives "srcs" [("srcs", .texts d.srcs)] ∧
      f.Gives "crate_root" (ifSome "crate_root" .text d.crateRoot) ∧
      f.Gives "edition" [("edition", .text d.edition)] ∧
      f.Gives "version" (ifSome "version" .text d.version) ∧
      f.Gives "features" (ifNonempty "features" d.features) ∧
      f.Gives "feature_map" (ifEntries "feature_map" .texts d.featureMap) ∧
      f.Gives "rustc_flags" (ifNonempty "rustc_flags" d.compilerFlags) ∧
      f.Gives "rustc_env" (ifEntries "rustc_env" .text d.compilerEnv) ∧
      f.Gives "tags" (ifNonempty "tags" d.tags) ∧
      f.Gives "deps" (ifNonempty "deps" d.deps) ∧
      f.Gives "proc_macro_deps" (ifNonempty "proc_macro_deps" d.procMacroDeps) ∧
      f.Gives "optional_deps" (ifNonempty "optional_deps" d.optionalDeps) ∧
      f.Gives "aliases" (ifEntries "aliases" .text d.aliases) ∧
      f.Gives "compatible_with" (ifSome "compatible_with" (ofMap .texts) d.compatibleWith) := by
    simpa [Fields.Gives, keys, entries, List.lookup_append, List.lookup_cons] using hrest
  simp [ofFields?, hname.required text? rfl, hsrcs.withDefault _ (texts?_texts _),
    hroot.optional text? horder fun _ _ => rfl, hedition.withDefault text? rfl,
    hversion.optional text? horder fun _ _ => rfl, hfeatures.texts,
    hmap.map _ fun e _ => texts?_texts e.2, hflags.texts, henv.map text? fun _ _ => rfl,
    htags.texts, hdeps.texts, hprocMacro.texts, hoptional.texts, haliases.map text? fun _ _ => rfl,
    hcompatible.optional _ horder fun conditions _ => orNull?_conditions conditions]

end Declaration

theorem CrateKind.oneOf?_name (kind : CrateKind) :
    oneOf? dialect alternatives (.text kind.name) = some kind := by
  cases kind <;> rfl

theorem TargetDecl.ofDocument?_toDocument (d : TargetDecl) :
    ofDocument? dialect d.toDocument = some d := by
  have hkeys : KeysIn keys d.entries := d.keysIn_entries.mono (by simp [keys])
  unfold ofDocument? toDocument
  refine bind_fields?_table (by simpa [keys] using hkeys) fun f horder hgiven => ?_
  have hname : f.Gives "name" [("name", .text d.name)] := by simp [Fields.Gives, hgiven]
  have hkind : f.Gives "kind" [("kind", .text d.kind.name)] := by
    simp [Fields.Gives, hgiven, List.lookup_cons]
  have hrest : ∀ key ∈ Declaration.keys, f.Gives key d.entries := by
    intro key hkey
    have hne : key ≠ "name" ∧ key ≠ "kind" := by
      constructor <;> rintro rfl <;> simp [Declaration.keys] at hkey
    simp [Fields.Gives, hgiven, SortedMap.lookup_cons_if, hne]
  simp [Declaration.ofFields?_eq_some horder hname hrest, hkind.withDefault _ d.kind.oneOf?_name]

theorem ScriptDecl.ofDocument?_toDocument (d : ScriptDecl) :
    ofDocument? dialect d.toDocument = some d := by
  have hkeys : KeysIn keys d.entries := d.keysIn_entries.mono (by simp [keys])
  unfold ofDocument? toDocument
  refine bind_fields?_table (by simpa [keys] using hkeys) fun f horder hgiven => ?_
  have hname : f.Gives "name" [("name", .text d.name)] := by simp [Fields.Gives, hgiven]
  have hrest : ∀ key ∈ Declaration.keys, f.Gives key d.entries := by
    intro key hkey
    have hne : key ≠ "name" ∧ key ≠ "build_script_env" ∧ key ≠ "links" ∧ key ≠ "data" ∧
        key ≠ "tools" := by
      refine ⟨?_, ?_, ?_, ?_, ?_⟩ <;> rintro rfl <;> simp [Declaration.keys] at hkey
    simp [Fields.Gives, hgiven, SortedMap.lookup_cons_if, List.lookup_append, hne]
  -- the keys that only a script has are not among the entries that it shares with targets
  have hown : ∀ key ∈ ["build_script_env", "links", "data", "tools"],
      d.entries.lookup key = none := fun key hkey =>
    d.keysIn_entries.lookup_eq_none (by revert key; simp [Declaration.keys])
  obtain ⟨henv, hlinks, hdata, htools⟩ :
      f.Gives "build_script_env" (ifEntries "build_script_env" .text d.scriptEnv) ∧
      f.Gives "links" (ifSome "links" .text d.links) ∧
      f.Gives "data" (ifNonempty "data" d.data) ∧
      f.Gives "tools" (ifNonempty "tools" d.tools) := by
    simp [Fields.Gives, hgiven, List.lookup_append, List.lookup_cons, hown]
  simp [Declaration.ofFields?_eq_some horder hname hrest, henv.map text? fun _ _ => rfl,
    hlinks.optional text? horder fun _ _ => rfl, hdata.texts, htools.texts]

/-! ## Manifests -/

namespace Manifest

/-- A manifest is read back from its written form, if its numbers are of 64 bits. -/
theorem ofDocument?_toDocument {m : Manifest} (h : m.settings.InRange) :
    ofDocument? dialect m.toDocument = some m := by
  unfold ofDocument? toDocument
  refine bind_fields?_table (by simp [keys]) fun f horder hgiven => ?_
  obtain ⟨hsettings, htargets, hscripts⟩ :
      f.Gives "settings" [("settings", m.settings.toDocument)] ∧
      f.Gives "target" (if m.targets.isEmpty then []
        else [("target", .list (m.targets.map TargetDecl.toDocument))]) ∧
      f.Gives "build_script" (if m.scripts.isEmpty then []
        else [("build_script", .list (m.scripts.map ScriptDecl.toDocument))]) := by
    simp [Fields.Gives, hgiven, List.lookup_append, List.lookup_cons]
  simp [hsettings.withDefault _ (Settings.ofDocument?_toDocument h),
    htargets.items _ fun d _ => d.ofDocument?_toDocument,
    hscripts.items _ fun d _ => d.ofDocument?_toDocument]

theorem inRange_of_ofDocument? {d : Document} {m : Manifest} (h : ofDocument? dialect d = some m) :
    m.settings.InRange := by
  simp only [ofDocument?, Option.bind_eq_bind, Option.bind_eq_some_iff] at h
  obtain ⟨f, -, settings, hsettings, targets, -, scripts, -, h⟩ := h
  cases h
  exact Fields.of_withDefault (fun _ _ => Settings.inRange_of_ofDocument?) Settings.inRange_default
    hsettings

/-- A manifest that was read is read back from its written form, whatever document it came from and
in whatever dialects the two are read. -/
theorem read_back {dialect dialect' : Dialect} {d : Document} {m : Manifest}
    (h : ofDocument? dialect d = some m) : ofDocument? dialect' m.toDocument = some m :=
  ofDocument?_toDocument (inRange_of_ofDocument? h)

/-- Fields that are null or empty, which are not written again, and one empty map of conditions,
which is. -/
def sparseDocument : Document :=
  .table [
    ("settings", .table [("jobs", .int 4), ("default_platform", .null),
      ("flags", .table [("stamp", .bool true), ("limit", .int (-3)), ("extra", .texts [])])]),
    ("target", .list [
      .table [("name", .text "//lib:core"), ("compatible_with", .table []), ("tags", .texts [])],
      .table [("name", .text "//lib:util"), ("kind", .text "binary"), ("version", .null)]]),
    ("build_script", .list [
      .table [("name", .text "//lib:build"), ("links", .text "z"), ("aliases", .table [])]])]

def sparse : Manifest where
  settings := {
    jobs := some 4
    flags := .ofList [("stamp", .bool true), ("limit", .int (-3)), ("extra", .list [])] }
  targets := [
    { name := "//lib:core", compatibleWith := some ∅ },
    { name := "//lib:util", kind := .binary }]
  scripts := [{ name := "//lib:build", links := some "z" }]

theorem read_back_sparse :
    ofDocument? .json sparseDocument = some sparse ∧
      ofDocument? .toml sparse.toDocument = some sparse := by
  have hread : ofDocument? .json sparseDocument = some sparse := by decide +kernel
  exact ⟨hread, read_back hread⟩

end Manifest

end BuildRules
