import BuildRules.Proofs.Configuration.RoundTrip
import BuildRules.Proofs.Document.Form

/-!
# Which documents are manifests

A manifest is read from a document whose tables have the fields of their records and no other keys.
What is given is found in the manifest that was read, and what is missing stands at its default.
Where a map is asked for, a date or a time counts as a table; if it did not, there would be
documents that are read against their form (`Manifest.ofDocument?_dated`). Main statement:
`Manifest.ofDocument?_exact`.
-/

namespace BuildRules

open Document

variable {dialect : Dialect} {given : Entries}

/-! ## Settings -/

/-- A value of a flag; an integer is one of 64 bits. -/
inductive IsFlag : Document → Prop
  | bool (value : Bool) : IsFlag (.bool value)
  | int {n : Int} : -9223372036854775808 ≤ n → n < 9223372036854775808 → IsFlag (.int n)
  | text (value : String) : IsFlag (.text value)
  | list {items : List Document} : (∀ item ∈ items, IsText item) → IsFlag (.list items)

theorem yields_flagValue_int (n : Int) :
    Yields (FlagValue.ofDocument? (.int n)) (IsFlag (.int n))
      (Written FlagValue.toDocument (.int n)) := by
  by_cases hn : -9223372036854775808 ≤ n ∧ n < 9223372036854775808
  · have hread : FlagValue.ofDocument? (.int n) = some (.int n) := by
      simp [FlagValue.ofDocument?, int64?, intBetween?, hn]
    rw [hread]
    exact .some (.int hn.1 hn.2) rfl
  · have hread : FlagValue.ofDocument? (.int n) = none := by
      simp [FlagValue.ofDocument?, int64?, intBetween?, hn]
    rw [hread]
    apply Yields.none
    intro hflag
    cases hflag with
    | int hlow hhigh => exact hn ⟨hlow, hhigh⟩

theorem yields_flagValue_list (items : List Document) :
    Yields (FlagValue.ofDocument? (.list items)) (IsFlag (.list items))
      (Written FlagValue.toDocument (.list items)) := by
  have hread : FlagValue.ofDocument? (.list items) = (texts? (.list items)).map .list := rfl
  have hform : IsListOf IsText (.list items) ↔ IsFlag (.list items) := by
    constructor
    · intro hlist
      rcases hlist with ⟨_, heq, hitems⟩
      cases heq
      exact .list hitems
    · intro hflag
      cases hflag with
      | list hitems => exact ⟨items, rfl, hitems⟩
  have hvalues : Yields ((texts? (.list items)).map FlagValue.list)
      (IsListOf IsText (.list items)) (Written FlagValue.toDocument (.list items)) :=
    (yields_texts? (.list items)).map fun _ h => h
  rw [hread]
  exact hvalues.congr hform fun _ h => h

theorem yields_flagValue (d : Document) :
    Yields (FlagValue.ofDocument? d) (IsFlag d) (Written FlagValue.toDocument d) := by
  cases d with
  | bool value => exact .some (.bool value) rfl
  | text value => exact .some (.text value) rfl
  | int n => exact yields_flagValue_int n
  | list items => exact yields_flagValue_list items
  | _ => exact .none nofun

namespace Settings

/-- The fields of settings. What counts as a table is left open where a map is asked for. -/
def fields (IsTable : Document → Entries → Prop) : List FieldForm :=
  [ .optional "default_platform" IsText,
    .optional "host_platform" IsText,
    .optional "jobs" IsCount,
    .defaulted "extra_rustc_flags" (IsListOf IsText),
    .defaulted "flags" (IsMapOf IsTable IsFlag) ]

/-- The settings that a table tells. -/
structure Told (given : Entries) (s : Settings) : Prop where
  defaultPlatform :
    FieldTold given "default_platform" (OptionTold (Written .text)) none s.defaultPlatform
  hostPlatform : FieldTold given "host_platform" (OptionTold (Written .text)) none s.hostPlatform
  jobs : FieldTold given "jobs" (OptionTold (Written fun n : Nat => .int n)) none s.jobs
  extraFlags : FieldTold given "extra_rustc_flags" (Written .texts) [] s.extraFlags
  flags : FieldTold given "flags" (MapTold FlagValue.toDocument) ∅ s.flags

theorem yields_ofDocument? (given : Entries) :
    Yields (ofDocument? dialect (.table given)) (IsRecord (fields IsTableOrDate) given)
      (Told given) := by
  have hkeys : ∀ key, key ∈ keys ↔ key ∈ (fields IsTableOrDate).map FieldForm.key :=
    fun _ => Iff.rfl
  refine yields_record hkeys fun f horder hgiven => ?_
  subst hgiven
  -- one condition for each field, in the order in which the fields are read
  simp only [fields, List.forall_mem_cons]
  refine (yields_optional "default_platform" horder yields_text?).bind fun platform hplatform => ?_
  refine (yields_optional "host_platform" horder yields_text?).bind fun host hhost => ?_
  refine (yields_optional "jobs" horder yields_nat64?).bind fun jobs hjobs => ?_
  refine (yields_withDefault "extra_rustc_flags" [] fun d _ => yields_texts? d).bind
    fun extra hextra => ?_
  refine (yields_withDefault "flags" ∅ fun d _ => yields_mapOf? yields_flagValue d).bind
    fun flags hflags => ?_
  exact .some nofun ⟨hplatform, hhost, hjobs, hextra, hflags⟩

end Settings

/-! ## Declarations -/

namespace Declaration

def fields (IsTable : Document → Entries → Prop) : List FieldForm :=
  [ .required "name" IsText,
    .defaulted "srcs" (IsListOf IsText),
    .optional "crate_root" IsText,
    .defaulted "edition" IsText,
    .optional "version" IsText,
    .defaulted "features" (IsListOf IsText),
    .defaulted "feature_map" (IsMapOf IsTable (IsListOf IsText)),
    .defaulted "rustc_flags" (IsListOf IsText),
    .defaulted "rustc_env" (IsMapOf IsTable IsText),
    .defaulted "tags" (IsListOf IsText),
    .defaulted "deps" (IsListOf IsText),
    .defaulted "proc_macro_deps" (IsListOf IsText),
    .defaulted "optional_deps" (IsListOf IsText),
    .defaulted "aliases" (IsMapOf IsTable IsText),
    .optional "compatible_with" (IsMapOf IsTable (IsListOf IsText)) ]

/-- The declaration that a table tells. -/
structure Told (given : Entries) (d : Declaration) : Prop where
  name : given.lookup "name" = some (.text d.name)
  srcs : FieldTold given "srcs" (Written .texts) [] d.srcs
  crateRoot : FieldTold given "crate_root" (OptionTold (Written .text)) none d.crateRoot
  edition : FieldTold given "edition" (Written .text) "2015" d.edition
  version : FieldTold given "version" (OptionTold (Written .text)) none d.version
  features : FieldTold given "features" (Written .texts) [] d.features
  featureMap : FieldTold given "feature_map" (MapTold .texts) ∅ d.featureMap
  compilerFlags : FieldTold given "rustc_flags" (Written .texts) [] d.compilerFlags
  compilerEnv : FieldTold given "rustc_env" (MapTold .text) ∅ d.compilerEnv
  tags : FieldTold given "tags" (Written .texts) [] d.tags
  deps : FieldTold given "deps" (Written .texts) [] d.deps
  procMacroDeps : FieldTold given "proc_macro_deps" (Written .texts) [] d.procMacroDeps
  optionalDeps : FieldTold given "optional_deps" (Written .texts) [] d.optionalDeps
  aliases : FieldTold given "aliases" (MapTold .text) ∅ d.aliases
  compatibleWith :
    FieldTold given "compatible_with" (OptionTold (MapTold .texts)) none d.compatibleWith

theorem yields_ofFields? {f : Fields} (horder : f.inOrder = false) :
    Yields (ofFields? f) (∀ field ∈ fields IsTableOrDate, field.Fits f.given) (Told f.given) := by
  have htexts := fun key => yields_withDefault (f := f) key [] fun d _ => yields_texts? d
  have hmap := fun key => yields_withDefault (f := f) key ∅ fun d _ => yields_mapOf? yields_text? d
  simp only [fields, List.forall_mem_cons]
  refine (yields_required "name" yields_text?).bind fun name hname => ?_
  refine (htexts "srcs").bind fun srcs hsrcs => ?_
  refine (yields_optional "crate_root" horder yields_text?).bind fun root hroot => ?_
  refine (yields_withDefault "edition" _ fun d _ => yields_text? d).bind fun edition hedition => ?_
  refine (yields_optional "version" horder yields_text?).bind fun version hversion => ?_
  refine (htexts "features").bind fun features hfeatures => ?_
  refine (yields_withDefault "feature_map" ∅ fun d _ => yields_mapOf? yields_texts? d).bind
    fun featureMap hfeatureMap => ?_
  refine (htexts "rustc_flags").bind fun flags hflags => ?_
  refine (hmap "rustc_env").bind fun env henv => ?_
  refine (htexts "tags").bind fun tags htags => ?_
  refine (htexts "deps").bind fun deps hdeps => ?_
  refine (htexts "proc_macro_deps").bind fun procMacroDeps hprocMacro => ?_
  refine (htexts "optional_deps").bind fun optionalDeps hoptional => ?_
  refine (hmap "aliases").bind fun aliases haliases => ?_
  refine (yields_optional "compatible_with" horder (yields_mapOf? yields_texts?)).bind
    fun conditions hconditions => ?_
  exact .some nofun ⟨hname, hsrcs, hroot, hedition, hversion, hfeatures, hfeatureMap, hflags, henv,
    htags, hdeps, hprocMacro, hoptional, haliases, hconditions⟩

end Declaration

/-! ## Targets and build scripts -/

/-- A kind of target that a manifest can declare. -/
def IsKind (d : Document) : Prop :=
  ∃ name ∈ ["library", "proc-macro", "binary"], d = .text name

/-- A kind that is no text may also be read from a table, so it is left out here. -/
theorem yields_kind {d : Document} (h : IsText d) :
    Yields (oneOf? dialect CrateKind.alternatives d) (IsKind d)
      (Written (fun kind : CrateKind => .text kind.name) d) := by
  rcases h with ⟨name, rfl⟩
  simp only [oneOf?, CrateKind.alternatives, SortedMap.lookup_cons_if]
  split
  · next hname =>
    subst hname
    exact .some ⟨_, .head _, rfl⟩ rfl
  split
  · next hname =>
    subst hname
    exact .some ⟨_, .tail _ (.head _), rfl⟩ rfl
  split
  · next hname =>
    subst hname
    exact .some ⟨_, .tail _ (.tail _ (.head _)), rfl⟩ rfl
  · next hlibrary hprocMacro hbinary =>
    apply Yields.none
    intro hkind
    rcases hkind with ⟨name', hmem, heq⟩
    cases heq
    simp [hlibrary, hprocMacro, hbinary] at hmem

namespace TargetDecl

def fields (IsTable : Document → Entries → Prop) : List FieldForm :=
  Declaration.fields IsTable ++ [.defaulted "kind" IsKind]

/-- The target that a table tells. -/
structure Told (given : Entries) (d : TargetDecl) : Prop where
  shared : d.toDeclaration.Told given
  kind : FieldTold given "kind" (Written fun kind : CrateKind => .text kind.name) .library d.kind

theorem yields_ofDocument? (hkind : ∀ d, given.lookup "kind" = some d → IsText d) :
    Yields (ofDocument? dialect (.table given)) (IsRecord (fields IsTableOrDate) given)
      (Told given) := by
  have hkeys : keys.Perm ((fields IsTableOrDate).map FieldForm.key) := by decide
  refine yields_record (fun _ => hkeys.mem_iff) fun f horder hgiven => ?_
  subst hgiven
  simp only [fields, List.forall_mem_append, List.forall_mem_cons]
  refine (Declaration.yields_ofFields? horder).bind fun shared hshared => ?_
  refine (yields_withDefault "kind" _ fun d hd => yields_kind (hkind d hd)).bind
    fun kind hkind => ?_
  exact .some nofun ⟨hshared, hkind⟩

end TargetDecl

namespace ScriptDecl

def fields (IsTable : Document → Entries → Prop) : List FieldForm :=
  Declaration.fields IsTable ++
    [ .defaulted "build_script_env" (IsMapOf IsTable IsText),
      .optional "links" IsText,
      .defaulted "data" (IsListOf IsText),
      .defaulted "tools" (IsListOf IsText) ]

/-- The build script that a table tells. -/
structure Told (given : Entries) (d : ScriptDecl) : Prop where
  shared : d.toDeclaration.Told given
  scriptEnv : FieldTold given "build_script_env" (MapTold .text) ∅ d.scriptEnv
  links : FieldTold given "links" (OptionTold (Written .text)) none d.links
  data : FieldTold given "data" (Written .texts) [] d.data
  tools : FieldTold given "tools" (Written .texts) [] d.tools

theorem yields_ofDocument? (given : Entries) :
    Yields (ofDocument? dialect (.table given)) (IsRecord (fields IsTableOrDate) given)
      (Told given) := by
  have hkeys : keys.Perm ((fields IsTableOrDate).map FieldForm.key) := by decide
  refine yields_record (fun _ => hkeys.mem_iff) fun f horder hgiven => ?_
  subst hgiven
  have htexts := fun key => yields_withDefault (f := f) key [] fun d _ => yields_texts? d
  simp only [fields, List.forall_mem_append, List.forall_mem_cons]
  refine (Declaration.yields_ofFields? horder).bind fun shared hshared => ?_
  refine (yields_withDefault "build_script_env" ∅ fun d _ => yields_mapOf? yields_text? d).bind
    fun env henv => ?_
  refine (yields_optional "links" horder yields_text?).bind fun links hlinks => ?_
  refine (htexts "data").bind fun data hdata => ?_
  refine (htexts "tools").bind fun tools htools => ?_
  exact .some nofun ⟨hshared, henv, hlinks, hdata, htools⟩

end ScriptDecl

/-! ## Manifests -/

namespace Manifest

def fields (IsTable : Document → Entries → Prop) : List FieldForm :=
  [ .defaulted "settings" (IsRecordOf (Settings.fields IsTable)),
    .defaulted "target" (IsListOf (IsRecordOf (TargetDecl.fields IsTable))),
    .defaulted "build_script" (IsListOf (IsRecordOf (ScriptDecl.fields IsTable))) ]

/-- The manifest that a table tells. -/
structure Told (given : Entries) (m : Manifest) : Prop where
  settings : FieldTold given "settings" (RecordTold Settings.Told) {} m.settings
  targets : FieldTold given "target" (ListTold (RecordTold TargetDecl.Told)) [] m.targets
  scripts : FieldTold given "build_script" (ListTold (RecordTold ScriptDecl.Told)) [] m.scripts

/-- Settings and declarations are given as tables, and kinds as texts. -/
structure HasTables (given : Entries) : Prop where
  settings : ∀ d, given.lookup "settings" = some d → ∃ entries, d = .table entries
  targets : ∀ items, given.lookup "target" = some (.list items) → ∀ item ∈ items,
    ∃ entries, item = .table entries ∧ ∀ kind, entries.lookup "kind" = some kind → IsText kind
  scripts : ∀ items, given.lookup "build_script" = some (.list items) → ∀ item ∈ items,
    ∃ entries, item = .table entries

theorem yields_ofDocument? (h : HasTables given) :
    Yields (ofDocument? dialect (.table given)) (IsRecord (fields IsTableOrDate) given)
      (Told given) := by
  have hsettings : ∀ d, given.lookup "settings" = some d →
      Yields (Settings.ofDocument? dialect d) (IsRecordOf (Settings.fields IsTableOrDate) d)
        (RecordTold Settings.Told d) := by
    intro d hd
    rcases h.settings d hd with ⟨entries, rfl⟩
    exact yields_table (Settings.yields_ofDocument? entries)
  have htargets : ∀ d, given.lookup "target" = some d →
      Yields (listOf? (TargetDecl.ofDocument? dialect) d)
        (IsListOf (IsRecordOf (TargetDecl.fields IsTableOrDate)) d)
        (ListTold (RecordTold TargetDecl.Told) d) := by
    intro d hd
    apply yields_listOf?
    intro items hitems item hitem
    rcases h.targets items (hitems ▸ hd) item hitem with ⟨entries, rfl, hkind⟩
    exact yields_table (TargetDecl.yields_ofDocument? hkind)
  have hscripts : ∀ d, given.lookup "build_script" = some d →
      Yields (listOf? (ScriptDecl.ofDocument? dialect) d)
        (IsListOf (IsRecordOf (ScriptDecl.fields IsTableOrDate)) d)
        (ListTold (RecordTold ScriptDecl.Told) d) := by
    intro d hd
    apply yields_listOf?
    intro items hitems item hitem
    rcases h.scripts items (hitems ▸ hd) item hitem with ⟨entries, rfl⟩
    exact yields_table (ScriptDecl.yields_ofDocument? entries)
  have hkeys : ∀ key, key ∈ keys ↔ key ∈ (fields IsTableOrDate).map FieldForm.key :=
    fun _ => Iff.rfl
  refine yields_record hkeys fun f _ hgiven => ?_
  subst hgiven
  simp only [fields, List.forall_mem_cons]
  refine (yields_withDefault "settings" {} hsettings).bind fun settings hsettings => ?_
  refine (yields_withDefault "target" [] htargets).bind fun targets htargets => ?_
  refine (yields_withDefault "build_script" [] hscripts).bind fun scripts hscripts => ?_
  exact .some nofun ⟨hsettings, htargets, hscripts⟩

/-- The document and the records in it are tables. A table that has a key twice is one, too,
although no text is read into such a table; of a record the first of the two entries counts. -/
def IsTabled (d : Document) : Prop := ∃ given, d = .table given ∧ HasTables given

/-- A document of tables is read exactly if they are the records of a manifest. All that is given is
then found in the manifest, and what is missing stands at its default. -/
theorem ofDocument?_exact (dialect : Dialect) {d : Document} (h : IsTabled d) :
    ((∃ m, ofDocument? dialect d = some m) ↔ IsRecordOf (fields IsTableOrDate) d) ∧
      ∀ m, ofDocument? dialect d = some m → RecordTold Told d m := by
  rcases h with ⟨given, rfl, htables⟩
  have hread : Yields (ofDocument? dialect (.table given)) _ _ := yields_ofDocument? htables
  exact ⟨(yields_table hread).exact, (yields_table hread).sound⟩

theorem isTabled_sparse : IsTabled sparseDocument := by
  refine ⟨_, rfl, ?_, ?_, ?_⟩
  · intro d hd
    cases Option.some.inj hd
    exact ⟨_, rfl⟩
  · intro items hitems item hitem
    cases Document.list.inj (Option.some.inj hitems)
    simp only [List.mem_cons, List.not_mem_nil, or_false] at hitem
    rcases hitem with rfl | rfl
    · exact ⟨_, rfl, nofun⟩
    · refine ⟨_, rfl, fun kind hkind => ?_⟩
      cases Option.some.inj hkind
      exact ⟨_, rfl⟩
  · intro items hitems item hitem
    cases Document.list.inj (Option.some.inj hitems)
    cases List.mem_singleton.1 hitem
    exact ⟨_, rfl⟩

theorem ofDocument?_exact_sparse :
    IsTabled sparseDocument ∧ IsRecordOf (fields IsTableOrDate) sparseDocument ∧
      RecordTold Told sparseDocument sparse := by
  have hread : ofDocument? .json sparseDocument = some sparse := by decide +kernel
  have hexact := ofDocument?_exact .json isTabled_sparse
  exact ⟨isTabled_sparse, hexact.1.1 ⟨sparse, hread⟩, hexact.2 sparse hread⟩

/-- A target whose environment is given as a date. -/
def datedDocument : Document :=
  .table [("target", .list [
    .table [("name", .text "x"), ("rustc_env", .datetime "1979-05-27")]])]

def dated : Manifest where
  targets := [{
    name := "x", compilerEnv := .ofList [("$__toml_private_datetime", "1979-05-27")] }]

theorem isTabled_dated : IsTabled datedDocument := by
  refine ⟨_, rfl, nofun, ?_, nofun⟩
  intro items hitems item hitem
  cases Document.list.inj (Option.some.inj hitems)
  cases List.mem_singleton.1 hitem
  exact ⟨_, rfl, nofun⟩

/-- The date is no table, and yet the document is read. -/
theorem ofDocument?_dated :
    IsTabled datedDocument ∧
      ¬ ((∃ m, ofDocument? .toml datedDocument = some m) ↔
        IsRecordOf (fields IsPlainTable) datedDocument) := by
  have hread : ofDocument? .toml datedDocument = some dated := by decide +kernel
  refine ⟨isTabled_dated, fun hiff => ?_⟩
  rcases hiff.1 ⟨dated, hread⟩ with ⟨_, heq, hmanifest⟩
  cases heq
  have htargets : FieldForm.Fits (.defaulted "target"
      (IsListOf (IsRecordOf (TargetDecl.fields IsPlainTable)))) _ :=
    hmanifest.fits _ (.tail _ (.head _))
  rcases htargets with ⟨_, heq, hitems⟩
  cases heq
  rcases hitems _ (.head _) with ⟨_, heq, htarget⟩
  cases heq
  have henv : FieldForm.Fits (.defaulted "rustc_env" (IsMapOf IsPlainTable IsText)) _ :=
    htarget.fits _ (List.mem_of_getElem? (i := 8) rfl)
  rcases henv with ⟨_, htable, -⟩
  cases htable

end Manifest

end BuildRules
