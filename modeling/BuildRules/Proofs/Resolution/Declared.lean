import BuildRules.Proofs.Resolution.Unification
import BuildRules.Proofs.Resolution.Verdict

/-!
# Units as their rules declare them

A unit of a resolved target has its kind and its flags from its rule. It has the dependencies that
the rule names, in the order in which it names them, and of the aliases of the rule those of the
dependencies that it has. Main statement: `units_declared`.
-/

namespace BuildRules

/-! ## What the ends of a rule's edges bring in -/

private theorem eraseDups_concat {α : Type} [DecidableEq α] (l : List α) (a : α) :
    (l ++ [a]).eraseDups = if a ∈ l then l.eraseDups else l.eraseDups ++ [a] := by
  rw [List.eraseDups_append, List.removeAll]
  by_cases h : a ∈ l <;> simp [h, List.eraseDups_cons]

namespace Walk

section

variable {target : Target} {context : ScriptContext} {ends : List End} {name : String}

/-- The dependencies are the units at the ends, each where it comes first. -/
theorem Gathered.deps_ofEnds {key : End → UnitKey}
    (h : ∀ e ∈ ends, ∃ unit, e.outcome = .compatible unit ∧ unit.key = key e) :
    (ofEnds target context ends).deps = (ends.map key).eraseDups := by
  induction ends using List.reverseRecOn with
  | nil => rfl
  | append_singleton ends e ih =>
    have hbefore := ih fun e' he' => h e' (List.mem_append_left _ he')
    obtain ⟨unit, hunit, hkey⟩ := h e (List.mem_append_right _ List.mem_cons_self)
    rw [ofEnds_concat, hunit, List.map_append, List.map_singleton, eraseDups_concat]
    simp only [add, hkey, hbefore, List.mem_eraseDups]

theorem Gathered.get?_aliases_ofEnds (h : ∀ e ∈ ends, ∃ unit, e.outcome = .compatible unit) :
    (ofEnds target context ends).aliases.get? name =
      (target.aliases.get? name).filter fun _ => name ∈ ends.map (·.edge.name) := by
  induction ends using List.reverseRecOn with
  | nil => simp [ofEnds]
  | append_singleton ends e ih =>
    have hbefore := ih fun e' he' => h e' (List.mem_append_left _ he')
    obtain ⟨unit, hunit⟩ := h e (List.mem_append_right _ List.mem_cons_self)
    rw [ofEnds_concat, hunit]
    by_cases hname : name = e.edge.name
    · subst hname
      cases halias : target.aliases.get? e.edge.name <;>
        simp [add, halias, hbefore, Option.filter_some]
    · cases halias : target.aliases.get? e.edge.name <;> simp [add, halias, hbefore, hname]

/-- The aliases kept are those of the dependencies at the ends. -/
theorem Gathered.aliases_ofEnds (h : ∀ e ∈ ends, ∃ unit, e.outcome = .compatible unit) :
    (ofEnds target context ends).aliases =
      target.aliases.filter fun e => e.1 ∈ ends.map (·.edge.name) :=
  SortedMap.ext_get? fun _ => by rw [get?_aliases_ofEnds h, SortedMap.get?_filter]

end

end Walk

/-! ## Declared units -/

namespace UnitGraph

variable (g : UnitGraph)

/-- The unit that a name stands for on a side, if the table has a rule of that name. -/
def unitAt? (side : Platform) (name : String) : Option UnitKey :=
  (g.table.get? name).map (g.place ⟨name, side⟩)

/-- The units that a rule needs where its constraints select the labels: its dependencies, the
labels, the optional dependencies that features ask for, and the procedural macros. -/
def needed (rule : Rule) (platform : Platform) (labels : List String)
    (features : FeatureSelection) : List UnitKey :=
  let active := rule.common.optionalDeps.filter fun d =>
    rule.common.localName d ∈ features.activated
  (rule.common.deps ++ labels ++ active).filterMap (g.unitAt? (g.side rule platform))
    ++ rule.common.procMacroDeps.filterMap (g.unitAt? g.host)

/-- A unit is what its rule says, when the given features are asked of it. -/
structure Declares (flags : List String) (asked : NameSet) (rule : Rule) (labels : List String)
    (unit : BuildUnit) : Prop where
  select : rule.common.select unit.key.platform = some (.compatible labels)
  /-- No name that the rule needs goes without a unit. -/
  known : ∀ name ∈ rule.common.declaredDeps ++ labels, g.table.get? name ≠ none
  deps : unit.deps =
    (g.needed rule unit.key.platform labels (rule.common.featuresFor asked)).eraseDups
  aliases : unit.aliases = rule.common.aliases.filter fun e => e.1 ∈ unit.deps.map UnitKey.name
  compilerFlags : unit.compilerFlags = rule.common.compilerFlags ++ flags
  kind : unit.kind = rule.common.kind

end UnitGraph

namespace Walk

variable {g : UnitGraph} {flags : List String} {requested : Requests}
variable {rule : Rule} {platform : Platform} {labels : List String} {ends : List End}

/-- The ends of a rule's edges are the units that the rule needs. -/
theorem EndsOf.map_place (h : EndsOf (g.setting flags requested) rule platform labels ends) :
    ends.map (fun e => g.place e.edge e.rule) = g.needed rule platform labels
      ((g.setting flags requested).features rule.common platform) := by
  have hunits : ends.map (fun e => g.place e.edge e.rule) =
      (ends.map End.edge).filterMap fun edge => g.unitAt? edge.platform edge.name := by
    rw [List.filterMap_map, eq_comm, List.filterMap_eq_map_iff_forall_eq_some]
    intro e he
    have hrule : g.table.get? e.edge.name = some e.rule := h.rules e he
    simp only [Function.comp_apply, UnitGraph.unitAt?, hrule, Option.map_some]
  rw [hunits, h.edges, Setting.openEdges, List.filterMap_append, List.filterMap_map,
    List.filterMap_map]
  rfl

end Walk

namespace Resolver

section

variable {g : UnitGraph} {flags : List String} {requested : Requests} {walk : Walk}
variable {res : Resolved} {unit : BuildUnit}

theorem IsRead.exists_declares (h : IsRead g flags requested walk res)
    (hunit : unit ∈ res.unit :: res.closure) :
    ∃ rule labels, g.rule? unit.key = some rule ∧
      g.Declares flags (requested.asked unit.key) rule labels unit := by
  obtain ⟨rule, labels, ends, hrule, hends, hkeys, heq⟩ := h.exists_ends hunit
  obtain ⟨hkind, hflags⟩ := h.declared hunit hrule
  have hdeps : unit.deps = (ends.map fun e => g.place e.edge e.rule).eraseDups := by
    rw [heq]
    exact Walk.Gathered.deps_ofEnds hkeys
  have hneeded := hends.map_place
  rw [Walk.features_setting hrule] at hneeded
  refine ⟨rule, labels, hrule, hends.select, fun name => hends.get?_ne_none, ?_, ?_, hflags, hkind⟩
  · rw [hdeps, hneeded]
  · -- a name stands for a dependency exactly when it stands at an end
    have hnames : ∀ name, name ∈ unit.deps.map UnitKey.name ↔ name ∈ ends.map (·.edge.name) := by
      intro name
      simp [hdeps, UnitGraph.place]
    simp only [hnames]
    rw [heq]
    exact Walk.Gathered.aliases_ofEnds fun e he => (hkeys e he).imp fun _ => And.left

end

/-- Every unit of a resolved target is what its rule says, with the features that the target's units
ask of it: it has the dependencies that the rule names, in the order in which it names them and each
where it comes first, and the aliases of these and of no others. -/
theorem units_declared {r : Resolver} {rule : Rule} {platform : Platform} {res : Resolved}
    (h : r.resolveRule rule platform = .ok (.compatible res)) :
    ∃ asked, (r.graph rule platform).Unifies asked res ∧
      ∀ unit ∈ res.unit :: res.closure, ∃ rule' labels,
        (r.graph rule platform).rule? unit.key = some rule' ∧
          (r.graph rule platform).Declares r.settings.extraFlags (asked unit.key) rule' labels
            unit := by
  obtain ⟨requested, walk, hread⟩ := exists_isRead h
  exact ⟨requested.asked, hread.unifies, fun unit => hread.exists_declares⟩

/-- A table with a library that is needed on both sides of a build for another machine. -/
def twofold : Resolver where
  table :=
    ⟨.ofList
      [ ("base", .target (.library "base")),
        ("extra", .target (.library "extra")),
        ("log", .target { Target.library "log" with deps := ["base"] }) ],
      by decide +kernel⟩
  settings := { extraFlags := ["-g"] }
  host? := some ⟨"x86_64-unknown-linux-gnu"⟩

/-- A library that names `base` in three places, and asks for one of two optional dependencies. -/
def naming : Rule :=
  .target
    { Target.library "app" with
      features := .ofList ["dep:journal"]
      compilerFlags := ["-O"]
      deps := ["base"]
      procMacroDeps := ["base"]
      optionalDeps := ["extra", "log"]
      aliases := .ofList [("extra", "more"), ("log", "journal")]
      constraints := some { entries := .ofList [(⟨"wasm32"⟩, ["base"])] } }

/-- What it comes to for `wasm32`. -/
def namedResult : Resolved where
  rule := naming
  unit :=
    { key := ⟨"app", ⟨"wasm32"⟩⟩, kind := .library, features := ∅, compilerFlags := ["-O", "-g"]
      deps :=
        [⟨"base", ⟨"wasm32"⟩⟩, ⟨"log", ⟨"wasm32"⟩⟩, ⟨"base", ⟨"x86_64-unknown-linux-gnu"⟩⟩]
      scriptEnv := ∅, aliases := .ofList [("log", "journal")] }
  closure :=
    [ { key := ⟨"base", ⟨"wasm32"⟩⟩, kind := .library, features := ∅, compilerFlags := ["-g"]
        deps := [], scriptEnv := ∅, aliases := ∅ },
      { key := ⟨"log", ⟨"wasm32"⟩⟩, kind := .library, features := ∅, compilerFlags := ["-g"]
        deps := [⟨"base", ⟨"wasm32"⟩⟩], scriptEnv := ∅, aliases := ∅ },
      { key := ⟨"base", ⟨"x86_64-unknown-linux-gnu"⟩⟩, kind := .library, features := ∅
        compilerFlags := ["-g"], deps := [], scriptEnv := ∅, aliases := ∅ } ]

theorem resolveRule_naming :
    twofold.resolveRule naming ⟨"wasm32"⟩ = .ok (.compatible namedResult) := by
  decide +kernel

theorem units_declared_naming :
    twofold.resolveRule naming ⟨"wasm32"⟩ = .ok (.compatible namedResult) ∧
      ∃ asked, (twofold.graph naming ⟨"wasm32"⟩).Unifies asked namedResult ∧
        ∀ unit ∈ namedResult.unit :: namedResult.closure, ∃ rule labels,
          (twofold.graph naming ⟨"wasm32"⟩).rule? unit.key = some rule ∧
            (twofold.graph naming ⟨"wasm32"⟩).Declares ["-g"] (asked unit.key) rule labels unit :=
  ⟨resolveRule_naming, units_declared resolveRule_naming⟩

end Resolver

end BuildRules
