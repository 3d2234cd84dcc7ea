import BuildRules.Proofs.Document.Fields
import BuildRules.Proofs.Resolution.Fingerprint

/-!
# Rules are read back as they are written

The written form of any rule, whether or not the rule is valid, gives the rule again: every field of
a target, the platforms of its constraints with a fallback that is absent or empty, and what a build
script has beside its target. Main statement: `Rule.ofDocument?_printed`.
-/

namespace BuildRules

open Document

variable {dialect : Dialect}

/-! ## Values of fields -/

theorem TargetKind.oneOf?_name (kind : TargetKind) :
    oneOf? dialect alternatives (.text kind.name) = some kind := by
  cases kind <;> rfl

theorem NameSet.ofDocument?_toDocument (names : NameSet) :
    ofDocument? (toDocument names) = some names := by
  simp [ofDocument?, toDocument]

theorem mapOf?_environment (env : Environment) :
    mapOf? text? (Environment.toDocument env) = some env :=
  mapOf?_ofMap fun _ _ => rfl

theorem mapOf?_featureMap (map : FeatureMap) : mapOf? texts? (ofMap .texts map) = some map :=
  mapOf?_ofMap fun e _ => texts?_texts e.2

/-! ## Constraint maps -/

namespace ConstraintMap

/-- The entries under the texts of their platforms. -/
def textEntries (map : ConstraintMap) : SortedMap String (List String) :=
  ⟨map.entries.toList.map fun e => (e.1.text, e.2), List.pairwise_map.2 map.entries.ascending⟩

theorem ofList_textEntries (map : ConstraintMap) :
    SortedMap.ofList (map.textEntries.toList.map fun e => (⟨e.1⟩, e.2)) = map.entries := by
  have hplatform : (fun e : Platform × List String => (Platform.mk e.1.text, e.2)) = id := rfl
  simp only [textEntries, List.map_map, Function.comp_def, hplatform, List.map_id,
    SortedMap.ofList_toList]

theorem ofDocument?_toDocument (map : ConstraintMap) :
    ofDocument? dialect map.toDocument = some map := by
  unfold ofDocument? toDocument
  refine bind_fields?_table (by simp [keys]) fun f horder hgiven => ?_
  obtain ⟨hentries, hfallback⟩ :
      f.Gives "entries" [("entries", ofMap .texts map.textEntries)] ∧
      f.Gives "default" (ifSome "default" .texts map.fallback) := by
    simp [Fields.Gives, hgiven, ofMap, textEntries, List.lookup_cons]
  have hread : f.required "entries" (fun d => (mapOf? texts? d).map fun m =>
      SortedMap.ofList (m.toList.map fun e => (Platform.mk e.1, e.2))) = some map.entries := by
    apply hentries.required
    rw [mapOf?_ofMap fun e _ => texts?_texts e.2, Option.map_some, ofList_textEntries]
  have hlabels : ∀ labels ∈ map.fallback, orNull? texts? (.texts labels) = some (some labels) :=
    fun labels _ => congrArg (Option.map some) (texts?_texts labels)
  simp [hread, hfallback.optional _ horder hlabels]

theorem orNull?_toDocument (map : ConstraintMap) :
    orNull? (ofDocument? dialect) map.toDocument = some (some map) :=
  congrArg (Option.map some) map.ofDocument?_toDocument

end ConstraintMap

/-! ## Targets and scripts -/

theorem Target.keysIn_entries (t : Target) : KeysIn keys t.entries := by
  simp [entries, keys]

theorem Target.ofDocument?_entries (t : Target) :
    ofDocument? dialect (.table t.entries) = some t := by
  refine bind_fields?_table t.keysIn_entries fun f horder hgiven => ?_
  -- each key has one entry
  obtain ⟨hname, hkind, hsrcs, hroot, hedition, hversion, hfeatures, hmap, hflags, henv, htags,
      hdeps, hprocMacro, hoptional, haliases, hconstraints⟩ :
      f.Gives "name" [("name", .text t.name)] ∧
      f.Gives "kind" [("kind", .text t.kind.name)] ∧
      f.Gives "srcs" [("srcs", .texts t.srcs)] ∧
      f.Gives "crate_root" [("crate_root", .textOrNull t.crateRoot)] ∧
      f.Gives "edition" [("edition", .text t.edition)] ∧
      f.Gives "version" [("version", .textOrNull t.version)] ∧
      f.Gives "features" [("features", NameSet.toDocument t.features)] ∧
      f.Gives "feature_map" [("feature_map", ofMap .texts t.featureMap)] ∧
      f.Gives "rustc_flags" [("rustc_flags", .texts t.compilerFlags)] ∧
      f.Gives "rustc_env" [("rustc_env", Environment.toDocument t.compilerEnv)] ∧
      f.Gives "tags" [("tags", NameSet.toDocument t.tags)] ∧
      f.Gives "deps" [("deps", .texts t.deps)] ∧
      f.Gives "proc_macro_deps" [("proc_macro_deps", .texts t.procMacroDeps)] ∧
      f.Gives "optional_deps" [("optional_deps", .texts t.optionalDeps)] ∧
      f.Gives "aliases" [("aliases", Environment.toDocument t.aliases)] ∧
      f.Gives "constraints"
        [("constraints", (t.constraints.map ConstraintMap.toDocument).getD .null)] := by
    simp [Fields.Gives, hgiven, entries, List.lookup_cons]
  simp [ofFields?, hname.required text? rfl, hkind.required _ t.kind.oneOf?_name,
    hsrcs.required _ (texts?_texts _), hroot.textOrNull, hedition.required text? rfl,
    hversion.textOrNull, hfeatures.required _ (NameSet.ofDocument?_toDocument _),
    hmap.required _ (mapOf?_featureMap _), hflags.required _ (texts?_texts _),
    henv.required _ (mapOf?_environment _), htags.required _ (NameSet.ofDocument?_toDocument _),
    hdeps.required _ (texts?_texts _), hprocMacro.required _ (texts?_texts _),
    hoptional.required _ (texts?_texts _), haliases.required _ (mapOf?_environment _),
    hconstraints.orNull _ fun map _ => map.orNull?_toDocument]

theorem Script.keysIn_entries (s : Script) : KeysIn keys s.entries := by
  simp [entries, keys]

theorem Script.ofFields?_entries (s : Script) :
    (fields? dialect false keys (.table s.entries)).bind (ofFields? dialect) = some s := by
  refine bind_fields?_table s.keysIn_entries fun f horder hgiven => ?_
  obtain ⟨htarget, henv, hlinks, hdata, htools⟩ :
      f.Gives "target" [("target", .table s.target.entries)] ∧
      f.Gives "build_script_env" [("build_script_env", Environment.toDocument s.env)] ∧
      f.Gives "links" [("links", .textOrNull s.links)] ∧
      f.Gives "data" [("data", .texts s.data)] ∧
      f.Gives "tools" [("tools", .texts s.tools)] := by
    simp [Fields.Gives, hgiven, entries, List.lookup_cons]
  simp [ofFields?, htarget.required _ s.target.ofDocument?_entries,
    henv.required _ (mapOf?_environment _), hlinks.textOrNull, hdata.required _ (texts?_texts _),
    htools.required _ (texts?_texts _)]

/-! ## Rules -/

namespace Rule

/-- The tag is no field of a target or a script. -/
theorem ne_tagKey {keys : List String} {entries : Entries} (h : KeysIn keys entries)
    (htag : tagKey ∉ keys) : ∀ e ∈ entries, e.1 ≠ tagKey := by
  intro e he heq
  exact htag (heq ▸ h e he)

theorem ofDocument?_toDocument (r : Rule) : ofDocument? r.toDocument = some r := by
  cases r with
  | target t =>
    have htag := ne_tagKey t.keysIn_entries (by decide)
    simp only [toDocument, ofDocument?_targetTag htag, t.ofDocument?_entries, Option.map_some]
  | script s =>
    have htag := ne_tagKey s.keysIn_entries (by decide)
    simp only [toDocument, ofDocument?_scriptTag htag, s.ofFields?_entries, Option.map_some]

/-- A rule is read back from its written form, and from every document that prints as that form
does. -/
theorem ofDocument?_printed (r : Rule) :
    ofDocument? r.toDocument = some r ∧
    ∀ d : Document, d.IsPlain → d.compact = r.toDocument.compact → ofDocument? d = some r := by
  refine ⟨r.ofDocument?_toDocument, fun d hplain hprinted => ?_⟩
  rw [(compact_inj hplain r.isPlain_toDocument).1 hprinted]
  exact r.ofDocument?_toDocument

end Rule

end BuildRules
