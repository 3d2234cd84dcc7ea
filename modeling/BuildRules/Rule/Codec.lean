import BuildRules.Document.Decode
import BuildRules.Rule

/-!
# The written form of rules

A table with all the fields of a rule, told by its tag `rule`. Absent options are written as null,
but for the fallback of a constraint map, which is left out. Fields that are not known are passed
over. Main statement: no two rules have one written form (`Rule.toDocument_inj`).
-/

namespace BuildRules

open Document

namespace TargetKind

def alternatives : List (String × TargetKind) :=
  [("library", library), ("proc-macro", procMacro), ("binary", binary),
    ("build-script", buildScript)]

@[simp] theorem name_inj {k l : TargetKind} : k.name = l.name ↔ k = l := by
  cases k <;> cases l <;> simp [name]

end TargetKind

def Environment.toDocument (env : Environment) : Document := ofMap .text env

def NameSet.toDocument (names : NameSet) : Document := .texts names.toList

@[simp] theorem NameSet.toDocument_inj {s t : NameSet} : toDocument s = toDocument t ↔ s = t := by
  simp [toDocument, SortedSet.toList_inj]

@[simp] theorem Environment.toDocument_inj {m n : Environment} :
    toDocument m = toDocument n ↔ m = n := by
  simp [toDocument]

def NameSet.ofDocument? (d : Document) : Option NameSet := d.texts?.map SortedSet.ofList

namespace ConstraintMap

def keys : List String := ["entries", "default"]

def ofDocument? (dialect : Dialect) (d : Document) : Option ConstraintMap := do
  let f ← d.fields? dialect false keys
  return {
    entries := ← f.required "entries" fun d =>
      (mapOf? texts? d).map fun m => .ofList (m.toList.map fun e => (⟨e.1⟩, e.2))
    fallback := ← f.optional "default" texts? }

def toDocument (map : ConstraintMap) : Document :=
  .table <|
    ("entries", .table (map.entries.toList.map fun e => (e.1.text, .texts e.2)))
    :: ifSome "default" .texts map.fallback

@[simp] theorem toDocument_inj {m n : ConstraintMap} : m.toDocument = n.toDocument ↔ m = n := by
  obtain ⟨entries, fallback⟩ := m
  obtain ⟨entries', fallback'⟩ := n
  have hentries : entries.toList.map (fun e => (e.1.text, Document.texts e.2)) =
      entries'.toList.map (fun e => (e.1.text, Document.texts e.2)) ↔ entries = entries' := by
    rw [List.map_inj_right, SortedMap.toList_inj]
    rintro ⟨⟨text⟩, labels⟩ ⟨⟨text'⟩, labels'⟩ h
    simpa using h
  cases fallback <;> cases fallback' <;> simp [toDocument, ifSome, hentries]

end ConstraintMap

namespace Target

def keys : List String :=
  ["name", "kind", "srcs", "crate_root", "edition", "version", "features", "feature_map",
    "rustc_flags", "rustc_env", "tags", "deps", "proc_macro_deps", "optional_deps", "aliases",
    "constraints"]

def ofFields? (dialect : Dialect) (f : Fields) : Option Target := do
  return {
    name := ← f.required "name" text?
    kind := ← f.required "kind" (oneOf? dialect TargetKind.alternatives)
    srcs := ← f.required "srcs" texts?
    crateRoot := ← f.optional "crate_root" text?
    edition := ← f.required "edition" text?
    version := ← f.optional "version" text?
    features := ← f.required "features" NameSet.ofDocument?
    featureMap := ← f.required "feature_map" (mapOf? texts?)
    compilerFlags := ← f.required "rustc_flags" texts?
    compilerEnv := ← f.required "rustc_env" (mapOf? text?)
    tags := ← f.required "tags" NameSet.ofDocument?
    deps := ← f.required "deps" texts?
    procMacroDeps := ← f.required "proc_macro_deps" texts?
    optionalDeps := ← f.required "optional_deps" texts?
    aliases := ← f.required "aliases" (mapOf? text?)
    constraints := ← f.optional "constraints" (ConstraintMap.ofDocument? dialect) }

def entries (t : Target) : Entries :=
  [ ("name", .text t.name),
    ("kind", .text t.kind.name),
    ("srcs", .texts t.srcs),
    ("crate_root", .textOrNull t.crateRoot),
    ("edition", .text t.edition),
    ("version", .textOrNull t.version),
    ("features", NameSet.toDocument t.features),
    ("feature_map", ofMap .texts t.featureMap),
    ("rustc_flags", .texts t.compilerFlags),
    ("rustc_env", Environment.toDocument t.compilerEnv),
    ("tags", NameSet.toDocument t.tags),
    ("deps", .texts t.deps),
    ("proc_macro_deps", .texts t.procMacroDeps),
    ("optional_deps", .texts t.optionalDeps),
    ("aliases", Environment.toDocument t.aliases),
    ("constraints", (t.constraints.map ConstraintMap.toDocument).getD .null) ]

theorem entries_inj {t u : Target} : t.entries = u.entries ↔ t = u := by
  have hconstraints : ∀ a b : Option ConstraintMap,
      (a.map ConstraintMap.toDocument).getD .null = (b.map ConstraintMap.toDocument).getD .null ↔
        a = b := by
    rintro (_ | a) (_ | b)
    · simp
    · simp [ConstraintMap.toDocument]
    · simp [ConstraintMap.toDocument]
    · simp
  cases t
  cases u
  simp [entries, hconstraints]

def ofDocument? (dialect : Dialect) (d : Document) : Option Target :=
  (d.fields? dialect false keys).bind (ofFields? dialect)

end Target

namespace Script

def keys : List String := ["target", "build_script_env", "links", "data", "tools"]

def ofFields? (dialect : Dialect) (f : Fields) : Option Script := do
  return {
    target := ← f.required "target" (Target.ofDocument? dialect)
    env := ← f.required "build_script_env" (mapOf? text?)
    links := ← f.optional "links" text?
    data := ← f.required "data" texts?
    tools := ← f.required "tools" texts? }

def entries (s : Script) : Entries :=
  [ ("target", .table s.target.entries),
    ("build_script_env", Environment.toDocument s.env),
    ("links", .textOrNull s.links),
    ("data", .texts s.data),
    ("tools", .texts s.tools) ]

theorem entries_inj {s t : Script} : s.entries = t.entries ↔ s = t := by
  cases s
  cases t
  simp [entries, Target.entries_inj]

end Script

namespace Rule

def tagKey : String := "rule"

def targetTag : String := "target"

def scriptTag : String := "build_script"

/-- A rule of a given tag. -/
private def ofTagged? (tag : String) (d : Document) : Option Rule :=
  if tag = targetTag then (Target.ofDocument? .taggedJson d).map target
  else if tag = scriptTag then
    ((d.fields? .taggedJson false Script.keys).bind (Script.ofFields? .taggedJson)).map script
  else none

/-- Reads a rule from a table with a tag or from a list that begins with it. -/
def ofDocument? : Document → Option Rule
  | .table entries => do
    let tag ← (← entries.lookup tagKey).text?
    ofTagged? tag (.table (entries.filter fun e => e.1 ≠ tagKey))
  | .list (tag :: items) => do ofTagged? (← tag.text?) (.list items)
  | _ => none

section Tagged

variable {entries : Entries} (h : ∀ e ∈ entries, e.1 ≠ tagKey)
include h

private theorem ofDocument?_tagged (tag : String) :
    ofDocument? (.table ((tagKey, .text tag) :: entries)) = ofTagged? tag (.table entries) := by
  have hrest : entries.filter (fun e => e.1 ≠ tagKey) = entries :=
    List.filter_eq_self.2 fun e he => decide_eq_true (h e he)
  simp only [ofDocument?, List.lookup_cons, beq_self_eq_true, List.filter_cons, hrest]
  rfl

theorem ofDocument?_targetTag :
    ofDocument? (.table ((tagKey, .text targetTag) :: entries)) =
      (Target.ofDocument? .taggedJson (.table entries)).map target :=
  ofDocument?_tagged h targetTag

theorem ofDocument?_scriptTag :
    ofDocument? (.table ((tagKey, .text scriptTag) :: entries)) =
      ((fields? .taggedJson false Script.keys (.table entries)).bind
        (Script.ofFields? .taggedJson)).map script :=
  ofDocument?_tagged h scriptTag

end Tagged

/-- The written form of a rule. Every rule has one, as its paths are texts; a path that is no text
could not be written. -/
def toDocument : Rule → Document
  | target t => .table ((tagKey, .text targetTag) :: t.entries)
  | script s => .table ((tagKey, .text scriptTag) :: s.entries)

@[simp] theorem toDocument_inj {r s : Rule} : r.toDocument = s.toDocument ↔ r = s := by
  cases r <;> cases s <;>
    simp [toDocument, targetTag, scriptTag, Target.entries_inj, Script.entries_inj]

end Rule

end BuildRules
