import BuildRules.Configuration.Manifest
import BuildRules.Configuration.Settings.Codec

/-!
# The written form of manifests

A table of the settings, the targets and the build scripts. What is empty or absent is left out, but
for the settings and for the name, kind, sources and edition of a declaration.
-/

namespace BuildRules

open Document

namespace CrateKind

def name (kind : CrateKind) : String := kind.targetKind.name

def alternatives : List (String × CrateKind) :=
  [("library", library), ("proc-macro", procMacro), ("binary", binary)]

end CrateKind

namespace Declaration

/-- The keys after the name. -/
def keys : List String :=
  ["srcs", "crate_root", "edition", "version", "features", "feature_map", "rustc_flags",
    "rustc_env", "tags", "deps", "proc_macro_deps", "optional_deps", "aliases", "compatible_with"]

def ofFields? (f : Fields) : Option Declaration := do
  return {
    name := ← f.required "name" text?
    srcs := ← f.withDefault "srcs" [] texts?
    crateRoot := ← f.optional "crate_root" text?
    edition := ← f.withDefault "edition" defaultEdition text?
    version := ← f.optional "version" text?
    features := ← f.withDefault "features" [] texts?
    featureMap := ← f.withDefault "feature_map" ∅ (mapOf? texts?)
    compilerFlags := ← f.withDefault "rustc_flags" [] texts?
    compilerEnv := ← f.withDefault "rustc_env" ∅ (mapOf? text?)
    tags := ← f.withDefault "tags" [] texts?
    deps := ← f.withDefault "deps" [] texts?
    procMacroDeps := ← f.withDefault "proc_macro_deps" [] texts?
    optionalDeps := ← f.withDefault "optional_deps" [] texts?
    aliases := ← f.withDefault "aliases" ∅ (mapOf? text?)
    compatibleWith := ← f.optional "compatible_with" (mapOf? texts?) }

/-- The entries after the name. -/
def entries (d : Declaration) : Entries :=
  [("srcs", .texts d.srcs)]
    ++ ifSome "crate_root" .text d.crateRoot
    ++ [("edition", .text d.edition)]
    ++ ifSome "version" .text d.version
    ++ ifNonempty "features" d.features
    ++ ifEntries "feature_map" .texts d.featureMap
    ++ ifNonempty "rustc_flags" d.compilerFlags
    ++ ifEntries "rustc_env" .text d.compilerEnv
    ++ ifNonempty "tags" d.tags
    ++ ifNonempty "deps" d.deps
    ++ ifNonempty "proc_macro_deps" d.procMacroDeps
    ++ ifNonempty "optional_deps" d.optionalDeps
    ++ ifEntries "aliases" .text d.aliases
    ++ ifSome "compatible_with" (ofMap .texts) d.compatibleWith

end Declaration

namespace TargetDecl

def keys : List String := "name" :: "kind" :: Declaration.keys

def ofDocument? (dialect : Dialect) (d : Document) : Option TargetDecl := do
  let f ← d.fields? dialect true keys
  return {
    toDeclaration := ← Declaration.ofFields? f
    kind := ← f.withDefault "kind" .library (oneOf? dialect CrateKind.alternatives) }

def toDocument (d : TargetDecl) : Document :=
  .table (("name", .text d.name) :: ("kind", .text d.kind.name) :: d.entries)

end TargetDecl

namespace ScriptDecl

def keys : List String :=
  "name" :: Declaration.keys ++ ["build_script_env", "links", "data", "tools"]

def ofDocument? (dialect : Dialect) (d : Document) : Option ScriptDecl := do
  let f ← d.fields? dialect true keys
  return {
    toDeclaration := ← Declaration.ofFields? f
    scriptEnv := ← f.withDefault "build_script_env" ∅ (mapOf? text?)
    links := ← f.optional "links" text?
    data := ← f.withDefault "data" [] texts?
    tools := ← f.withDefault "tools" [] texts? }

def toDocument (d : ScriptDecl) : Document :=
  .table <| ("name", .text d.name) :: d.entries
    ++ ifEntries "build_script_env" .text d.scriptEnv
    ++ ifSome "links" .text d.links
    ++ ifNonempty "data" d.data
    ++ ifNonempty "tools" d.tools

end ScriptDecl

namespace Manifest

def keys : List String := ["settings", "target", "build_script"]

def ofDocument? (dialect : Dialect) (d : Document) : Option Manifest := do
  let f ← d.fields? dialect true keys
  return {
    settings := ← f.withDefault "settings" {} (Settings.ofDocument? dialect)
    targets := ← f.withDefault "target" [] (listOf? (TargetDecl.ofDocument? dialect))
    scripts := ← f.withDefault "build_script" [] (listOf? (ScriptDecl.ofDocument? dialect)) }

def toDocument (m : Manifest) : Document :=
  .table <| ("settings", m.settings.toDocument)
    :: ((if m.targets.isEmpty then []
        else [("target", .list (m.targets.map TargetDecl.toDocument))])
      ++ if m.scripts.isEmpty then []
        else [("build_script", .list (m.scripts.map ScriptDecl.toDocument))])

end Manifest

end BuildRules
