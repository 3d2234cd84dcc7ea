import BuildRules.Proofs.Resolution.Declared
import BuildRules.Proofs.Rule.Script

/-!
# The environment of a unit

A unit has what the build scripts that it depends on hand on together. What they compute is computed
for the unit as it comes out of the resolution, whichever walk found out about its features. Main
statements: `scriptEnv_exact` and, on declared variables, `declared_kept_iff`.
-/

namespace BuildRules

namespace UnitGraph

variable (g : UnitGraph)

/-- A unit depends on a build script, which then runs for it. -/
def RunsFor (s : Script) (unit : BuildUnit) : Prop :=
  ∃ u ∈ unit.deps, g.table.get? u.name = some (.script s)

/-- The build scripts among the dependencies of a rule, in the order in which it names them, where
its constraints select the labels. -/
def scripts (rule : Rule) (labels : List String) (features : FeatureSelection) : List Script :=
  let active := rule.common.optionalDeps.filter fun d =>
    rule.common.localName d ∈ features.activated
  (rule.common.deps ++ labels ++ active ++ rule.common.procMacroDeps).filterMap fun name =>
    (g.table.get? name).bind Rule.script?

/-- What build scripts run for: a unit of a rule. -/
def contextOf (rule : Rule) (unit : BuildUnit) : ScriptContext where
  package := rule.name
  version := rule.common.version
  target := unit.key.platform
  host := g.host
  features := unit.features

/-- No build script that runs for a unit declares the variable. -/
def Undeclared (unit : BuildUnit) (key : String) : Prop :=
  ∀ s, g.RunsFor s unit → s.env.get? key = none

/-- The environment of a unit of a rule, which is that of the unit as it is in the end. -/
structure HasScriptEnv (rule : Rule) (unit : BuildUnit) : Prop where
  /-- Where no script runs there is no environment. -/
  empty : (∀ s, ¬ g.RunsFor s unit) → unit.scriptEnv = ∅
  basic : ∀ s, g.RunsFor s unit → ∀ entry ∈
    [ ("TARGET", unit.key.platform.text),
      ("HOST", g.host.text),
      ("CARGO_CFG_TARGET_ARCH",
        String.ofList (unit.key.platform.text.toList.takeWhile (· ≠ '-'))),
      ("CARGO_PKG_NAME", rule.name),
      ("CARGO_PKG_VERSION", rule.common.version.getD "0.0.0") ],
    g.Undeclared unit entry.1 → unit.scriptEnv.get? entry.1 = some entry.2
  links : g.Undeclared unit "CARGO_MANIFEST_LINKS" →
    (unit.scriptEnv.get? "CARGO_MANIFEST_LINKS" ≠ none ↔
      ∃ s, g.RunsFor s unit ∧ s.links ≠ none)
  /-- The features announced are those that the unit has. -/
  feature : ∀ s, g.RunsFor s unit → ∀ name, g.Undeclared unit ("CARGO_FEATURE_" ++ name) →
    ∀ value, unit.scriptEnv.get? ("CARGO_FEATURE_" ++ name) = some value ↔
      value = "1" ∧ ∃ feature ∈ unit.features,
        name = (Text.upper feature).map fun c => if c = '-' then '_' else c
  /-- There are no other variables than these. -/
  other : ∀ key, g.Undeclared unit key → unit.scriptEnv.get? key ≠ none →
    key ∈ basicVariables ∨ key = "CARGO_MANIFEST_LINKS" ∨ ∃ name, key = "CARGO_FEATURE_" ++ name
  /-- What the only script declares wins over what it computes. -/
  single : ∀ s, g.RunsFor s unit → (∀ s', g.RunsFor s' unit → s' = s) →
    ∀ key value, s.env.get? key = some value → unit.scriptEnv.get? key = some value

/-- Of the build scripts that run for a unit, one declares a value for a variable and the others
leave it alone. -/
structure DeclaresAlone (s : Script) (unit : BuildUnit) (key value : String) : Prop where
  runs : g.RunsFor s unit
  declares : s.env.get? key = some value
  alone : ∀ s', g.RunsFor s' unit → s' ≠ s → s'.env.get? key = none

section

variable {g : UnitGraph} {rule : Rule} {unit : BuildUnit} {scripts : List Script} {key : String}

theorem Undeclared.get?_eq_none (h : g.Undeclared unit key)
    (hruns : ∀ s, g.RunsFor s unit ↔ s ∈ scripts) : ∀ s ∈ scripts, s.env.get? key = none :=
  fun s hs => h s ((hruns s).2 hs)

/-- A unit with what the scripts that run for it hand on has the environment that it should have. -/
theorem hasScriptEnv_of_handedOn (hruns : ∀ s, g.RunsFor s unit ↔ s ∈ scripts)
    (henv : unit.scriptEnv = Script.handedOn (g.contextOf rule unit) scripts) :
    g.HasScriptEnv rule unit where
  empty hnone := by
    obtain rfl : scripts = [] :=
      List.eq_nil_iff_forall_not_mem.2 fun s hs => hnone s ((hruns s).2 hs)
    exact henv
  basic s hs entry hentry hundeclared := by
    rw [← Platform.arch_eq] at hentry
    rw [henv]
    exact Script.get?_handedOn_computed ((hruns s).1 hs) (hundeclared.get?_eq_none hruns)
      fun s' => .basic hentry
  links hundeclared := by
    rw [henv]
    constructor
    · intro hpresent
      obtain ⟨value, hvalue⟩ := Option.ne_none_iff_exists'.1 hpresent
      obtain ⟨s, hs, hcomputes⟩ := Script.exists_computes_of_get?_handedOn
        (hundeclared.get?_eq_none hruns) hvalue
      rw [Script.computes_links_iff] at hcomputes
      exact ⟨s, (hruns s).2 hs, by simp [hcomputes]⟩
    · intro hlinks
      obtain ⟨s, hs, hsome⟩ := hlinks
      obtain ⟨links, hsome⟩ := Option.ne_none_iff_exists'.1 hsome
      exact Script.get?_handedOn_ne_none ((hruns s).1 hs) (.links hsome)
  feature s hs name hundeclared value := by
    rw [henv]
    constructor
    · intro hvalue
      obtain ⟨s', -, hcomputes⟩ := Script.exists_computes_of_get?_handedOn
        (hundeclared.get?_eq_none hruns) hvalue
      exact Script.computes_feature_iff.1 hcomputes
    · intro hfeature
      exact Script.get?_handedOn_computed ((hruns s).1 hs) (hundeclared.get?_eq_none hruns)
        fun s' => Script.computes_feature_iff.2 hfeature
  other key hundeclared hpresent := by
    rw [henv] at hpresent
    obtain ⟨value, hvalue⟩ := Option.ne_none_iff_exists'.1 hpresent
    obtain ⟨s, -, hcomputes⟩ := Script.exists_computes_of_get?_handedOn
      (hundeclared.get?_eq_none hruns) hvalue
    cases hcomputes with
    | basic h => exact .inl (Script.mem_basicVariables h)
    | links h => exact .inr (.inl rfl)
    | feature h => exact .inr (.inr ⟨_, rfl⟩)
  single s hs hunique key value hdeclared := by
    rw [henv]
    refine Script.get?_handedOn_of_forall ((hruns s).1 hs) fun s' hs' => ?_
    obtain rfl := hunique s' ((hruns s').2 hs')
    rw [Script.get?_environment, hdeclared, Option.some_or]

end

end UnitGraph

namespace Walk

variable {g : UnitGraph} {flags : List String} {requested : Requests}
variable {rule : Rule} {platform : Platform} {labels : List String} {ends : List End}

theorem Gathered.scriptEnv_ofEnds {target : Target} {context : ScriptContext}
    (h : ∀ e ∈ ends, ∃ unit, e.outcome = .compatible unit) :
    (ofEnds target context ends).scriptEnv =
      Script.handedOn context (ends.filterMap fun e => e.rule.script?) := by
  induction ends using List.reverseRecOn with
  | nil => rfl
  | append_singleton ends e ih =>
    have hbefore := ih fun e' he' => h e' (List.mem_append_left _ he')
    obtain ⟨unit, hunit⟩ := h e (List.mem_append_right _ List.mem_cons_self)
    rw [ofEnds_concat, hunit, List.filterMap_append]
    cases hscript : e.rule.script? with
    | none => simp [add, hscript, hbefore]
    | some s => simp [add, hscript, hbefore, Script.handedOn_concat]

/-- The scripts at the ends of a rule's edges are those among its dependencies. -/
theorem EndsOf.filterMap_script?
    (h : EndsOf (g.setting flags requested) rule platform labels ends) :
    (ends.filterMap fun e => e.rule.script?) =
      g.scripts rule labels ((g.setting flags requested).features rule.common platform) := by
  have hnames : (ends.filterMap fun e => e.rule.script?) =
      (ends.map End.edge).filterMap fun edge => (g.table.get? edge.name).bind Rule.script? := by
    rw [List.filterMap_map]
    refine List.filterMap_congr fun e he => ?_
    have hrule : g.table.get? e.edge.name = some e.rule := h.rules e he
    rw [Function.comp_apply, hrule, Option.bind_some]
  rw [hnames, h.edges, Setting.openEdges, UnitGraph.scripts, List.filterMap_append,
    List.filterMap_append, List.filterMap_map, List.filterMap_map]
  rfl

/-- Of the units at the ends of a rule's edges, those of scripts are those of the scripts there. -/
theorem EndsOf.exists_script_iff {context : ScriptContext} {s : Script}
    (h : EndsOf (g.setting flags requested) rule platform labels ends)
    (hunits : ∀ e ∈ ends, ∃ unit, e.outcome = .compatible unit ∧
      unit.key = g.place e.edge e.rule) :
    (∃ u ∈ (Gathered.ofEnds rule.common context ends).deps,
        g.table.get? u.name = some (.script s)) ↔
      s ∈ ends.filterMap fun e => e.rule.script? := by
  have hrules : ∀ e ∈ ends, g.table.get? e.edge.name = some e.rule := h.rules
  simp only [Gathered.mem_deps_ofEnds_iff, List.mem_filterMap, Rule.script?_eq_some_iff]
  constructor
  · rintro ⟨u, ⟨e, he, unit, hunit, rfl⟩, hs⟩
    obtain ⟨unit', hunit', hkey⟩ := hunits e he
    obtain rfl : unit = unit' := Outcome.compatible.inj (hunit.symm.trans hunit')
    rw [hkey, UnitGraph.place, hrules e he] at hs
    exact ⟨e, he, Option.some.inj hs⟩
  · rintro ⟨e, he, hs⟩
    obtain ⟨unit, hunit, hkey⟩ := hunits e he
    refine ⟨unit.key, ⟨e, he, unit, hunit, rfl⟩, ?_⟩
    rw [hkey, UnitGraph.place, hrules e he, hs]

end Walk

namespace Resolver

section

variable {g : UnitGraph} {flags : List String} {requested : Requests} {walk : Walk}
variable {res : Resolved} {unit : BuildUnit}

/-- A unit has what the build scripts among the dependencies of its rule hand on, and these are the
scripts that run for it. -/
theorem IsRead.exists_scripts (h : IsRead g flags requested walk res)
    (hunit : unit ∈ res.unit :: res.closure) :
    ∃ rule labels, g.rule? unit.key = some rule ∧
      rule.common.select unit.key.platform = some (.compatible labels) ∧
      (∀ s, g.RunsFor s unit ↔
        s ∈ g.scripts rule labels (rule.common.featuresFor (requested.asked unit.key))) ∧
      unit.scriptEnv = Script.handedOn (g.contextOf rule unit)
        (g.scripts rule labels (rule.common.featuresFor (requested.asked unit.key))) := by
  obtain ⟨rule, labels, ends, hrule, hends, hunits, heq⟩ := h.exists_ends hunit
  have hscripts := hends.filterMap_script?
  rw [Walk.features_setting hrule] at hscripts
  have hcompatible : ∀ e ∈ ends, ∃ unit', e.outcome = .compatible unit' := fun e he =>
    (hunits e he).imp fun _ => And.left
  refine ⟨rule, labels, hrule, hends.select, fun s => ?_, ?_⟩
  · rw [← hscripts, ← hends.exists_script_iff hunits, heq]
    rfl
  · have hcontext : g.contextOf rule unit = (g.setting flags requested).context rule.common
        unit.key.platform ((g.setting flags requested).features rule.common unit.key.platform) := by
      unfold UnitGraph.contextOf
      rw [show unit.features = ((g.setting flags requested).features rule.common
        unit.key.platform).enabled from congrArg BuildUnit.features heq]
      rfl
    rw [← hscripts, ← Walk.Gathered.scriptEnv_ofEnds hcompatible, hcontext]
    exact congrArg BuildUnit.scriptEnv heq

end

/-- The environment of every unit of a resolved target is that of the unit as it is in the end. -/
theorem scriptEnv_exact {r : Resolver} {rule : Rule} {platform : Platform} {res : Resolved}
    (h : r.resolveRule rule platform = .ok (.compatible res)) :
    ∀ unit ∈ res.unit :: res.closure, ∃ rule',
      (r.graph rule platform).rule? unit.key = some rule' ∧
        (r.graph rule platform).HasScriptEnv rule' unit := by
  obtain ⟨requested, walk, hread⟩ := exists_isRead h
  intro unit hunit
  obtain ⟨rule', labels, hrule', -, hruns, henv⟩ := hread.exists_scripts hunit
  exact ⟨rule', hrule', UnitGraph.hasScriptEnv_of_handedOn hruns henv⟩

/-- A table with a library that a build script runs for. -/
def native : Resolver where
  table :=
    ⟨.ofList
      [ ("zlib", .target { Target.library "zlib" with deps := ["zlib-build"] }),
        ("zlib-build", .script
          { Script.ofRoot "zlib-build" "build.rs" with
            env := .ofList [("OPT_LEVEL", "3")]
            links := some "z" }) ],
      by decide +kernel⟩
  settings := {}
  host? := some ⟨"x86_64-unknown-linux-gnu"⟩

/-- A binary that asks a feature of `zlib`, which the first walk finds out about. -/
def packing : Rule :=
  .target
    { Target.library "pack" with
      kind := .binary
      features := .ofList ["zlib/fast-path"]
      deps := ["zlib"] }

/-- What it comes to for another machine. -/
def packed : Resolved where
  rule := packing
  unit :=
    { key := ⟨"pack", ⟨"wasm32-wasi"⟩⟩, kind := .binary, features := ∅, compilerFlags := []
      deps := [⟨"zlib", ⟨"wasm32-wasi"⟩⟩], scriptEnv := ∅, aliases := ∅ }
  closure :=
    [ { key := ⟨"zlib-build", ⟨"x86_64-unknown-linux-gnu"⟩⟩, kind := .buildScript, features := ∅
        compilerFlags := [], deps := [], scriptEnv := ∅, aliases := ∅ },
      { key := ⟨"zlib", ⟨"wasm32-wasi"⟩⟩, kind := .library, features := .ofList ["fast-path"]
        compilerFlags := []
        deps := [⟨"zlib-build", ⟨"x86_64-unknown-linux-gnu"⟩⟩]
        scriptEnv := .ofList
          [ ("CARGO_CFG_TARGET_ARCH", "wasm32"), ("CARGO_FEATURE_FAST_PATH", "1"),
            ("CARGO_MANIFEST_LINKS", "z"), ("CARGO_PKG_NAME", "zlib"),
            ("CARGO_PKG_VERSION", "0.0.0"), ("HOST", "x86_64-unknown-linux-gnu"),
            ("OPT_LEVEL", "3"), ("TARGET", "wasm32-wasi") ]
        aliases := ∅ } ]

theorem resolveRule_packing :
    native.resolveRule packing ⟨"wasm32-wasi"⟩ = .ok (.compatible packed) := by
  decide +kernel

theorem scriptEnv_exact_packing :
    native.resolveRule packing ⟨"wasm32-wasi"⟩ = .ok (.compatible packed) ∧
      ∀ unit ∈ packed.unit :: packed.closure, ∃ rule,
        (native.graph packing ⟨"wasm32-wasi"⟩).rule? unit.key = some rule ∧
          (native.graph packing ⟨"wasm32-wasi"⟩).HasScriptEnv rule unit :=
  ⟨resolveRule_packing, scriptEnv_exact resolveRule_packing⟩

/-! ## Declared variables -/

/-- What one of the scripts of a unit alone declares is in the environment of the unit, unless what
scripts compute that are named later stands in its place. -/
theorem declared_kept_iff {r : Resolver} {rule : Rule} {platform : Platform} {res : Resolved}
    (h : r.resolveRule rule platform = .ok (.compatible res)) :
    ∃ asked, (r.graph rule platform).Unifies asked res ∧
      ∀ unit ∈ res.unit :: res.closure, ∃ rule' labels,
        (r.graph rule platform).rule? unit.key = some rule' ∧
        rule'.common.select unit.key.platform = some (.compatible labels) ∧
        ∀ s key value, (r.graph rule platform).DeclaresAlone s unit key value →
          ∃ before after,
            (r.graph rule platform).scripts rule' labels
              (rule'.common.featuresFor (asked unit.key)) = before ++ s :: after ∧
            s ∉ after ∧
            (unit.scriptEnv.get? key = some value ↔
              ¬ Script.Overwrites ((r.graph rule platform).contextOf rule' unit) after key
                value) := by
  obtain ⟨requested, walk, hread⟩ := exists_isRead h
  refine ⟨requested.asked, hread.unifies, fun unit hunit => ?_⟩
  obtain ⟨rule', labels, hrule', hselect, hruns, henv⟩ := hread.exists_scripts hunit
  refine ⟨rule', labels, hrule', hselect, fun s key value halone => ?_⟩
  -- where a script is named more than once, its last turn counts
  obtain ⟨later, earlier, hsplit, hlater⟩ :=
    List.eq_append_cons_of_mem (List.mem_reverse.2 ((hruns s).1 halone.runs))
  have hscripts := congrArg List.reverse hsplit
  rw [List.reverse_reverse, List.reverse_append, List.reverse_cons, List.append_assoc,
    List.singleton_append] at hscripts
  have hafter : s ∉ later.reverse := fun hs => hlater (List.mem_reverse.1 hs)
  refine ⟨earlier.reverse, later.reverse, hscripts, hafter, ?_⟩
  rw [henv, hscripts]
  refine Script.get?_handedOn_declared_iff halone.declares fun s' hs' => ?_
  refine halone.alone s' ((hruns s').2 ?_) fun heq => hafter (heq ▸ hs')
  rw [hscripts]
  exact List.mem_append_right _ (List.mem_cons_of_mem _ hs')

/-- A build script that declares a variable which every script computes. -/
def probe : Script :=
  { Script.ofRoot "probe" "probe.rs" with env := .ofList [("TARGET", "custom")] }

def contested : Resolver where
  table :=
    ⟨.ofList [("probe", .script probe), ("bind", .script (Script.ofRoot "bind" "bind.rs"))],
      by decide +kernel⟩
  settings := {}
  host? := none

/-- A library that names another build script after `probe`. -/
def disputed : Rule := .target { Target.library "app" with deps := ["probe", "bind"] }

/-- What it comes to: `bind` computes the variable that `probe` declares. -/
def overruled : Resolved where
  rule := disputed
  unit :=
    { key := ⟨"app", ⟨"linux"⟩⟩, kind := .library, features := ∅, compilerFlags := []
      deps := [⟨"probe", ⟨"linux"⟩⟩, ⟨"bind", ⟨"linux"⟩⟩]
      scriptEnv := .ofList
        [ ("CARGO_CFG_TARGET_ARCH", "linux"), ("CARGO_PKG_NAME", "app"),
          ("CARGO_PKG_VERSION", "0.0.0"), ("HOST", "linux"), ("TARGET", "linux") ]
      aliases := ∅ }
  closure :=
    [ { key := ⟨"probe", ⟨"linux"⟩⟩, kind := .buildScript, features := ∅, compilerFlags := []
        deps := [], scriptEnv := ∅, aliases := ∅ },
      { key := ⟨"bind", ⟨"linux"⟩⟩, kind := .buildScript, features := ∅, compilerFlags := []
        deps := [], scriptEnv := ∅, aliases := ∅ } ]

theorem resolveRule_disputed :
    contested.resolveRule disputed ⟨"linux"⟩ = .ok (.compatible overruled) := by
  decide +kernel

theorem declared_kept_iff_disputed :
    contested.resolveRule disputed ⟨"linux"⟩ = .ok (.compatible overruled) ∧
      ∃ asked, (contested.graph disputed ⟨"linux"⟩).Unifies asked overruled ∧
        ∀ unit ∈ overruled.unit :: overruled.closure, ∃ rule labels,
          (contested.graph disputed ⟨"linux"⟩).rule? unit.key = some rule ∧
          rule.common.select unit.key.platform = some (.compatible labels) ∧
          ∀ s key value, (contested.graph disputed ⟨"linux"⟩).DeclaresAlone s unit key value →
            ∃ before after,
              (contested.graph disputed ⟨"linux"⟩).scripts rule labels
                (rule.common.featuresFor (asked unit.key)) = before ++ s :: after ∧
              s ∉ after ∧
              (unit.scriptEnv.get? key = some value ↔
                ¬ Script.Overwrites ((contested.graph disputed ⟨"linux"⟩).contextOf rule unit)
                  after key value) :=
  ⟨resolveRule_disputed, declared_kept_iff resolveRule_disputed⟩

/-- The value that `probe` alone declares is lost. -/
theorem not_declared_kept :
    contested.resolveRule disputed ⟨"linux"⟩ = .ok (.compatible overruled) ∧
      ¬ ∀ unit ∈ overruled.unit :: overruled.closure, ∀ s key value,
        (contested.graph disputed ⟨"linux"⟩).DeclaresAlone s unit key value →
          unit.scriptEnv.get? key = some value := by
  refine ⟨resolveRule_disputed, fun hkept => ?_⟩
  have hbind : contested.table.get? "bind" = some (.script (Script.ofRoot "bind" "bind.rs")) := by
    decide +kernel
  have hprobe : contested.table.get? "probe" = some (.script probe) := by decide +kernel
  have halone : (contested.graph disputed ⟨"linux"⟩).DeclaresAlone probe overruled.unit "TARGET"
      "custom" := by
    refine ⟨⟨⟨"probe", ⟨"linux"⟩⟩, by decide, hprobe⟩, by decide, fun s hruns hne => ?_⟩
    obtain ⟨u, hu, hs⟩ := hruns
    rcases List.mem_pair.1 hu with rfl | rfl
    · exact absurd (Rule.script.inj (Option.some.inj (hs.symm.trans hprobe))) hne
    · rw [Rule.script.inj (Option.some.inj (hs.symm.trans hbind))]
      rfl
  have hkept := hkept overruled.unit List.mem_cons_self probe "TARGET" "custom" halone
  exact absurd hkept (by decide +kernel)

end Resolver

end BuildRules
