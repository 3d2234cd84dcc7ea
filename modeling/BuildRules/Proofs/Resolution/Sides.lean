import BuildRules.Proofs.Resolution.Closure
import BuildRules.Proofs.Resolution.Part

/-!
# Sides of a build

A build has two sides, the platform that is built for and the host. What runs while others are built
stands on the host, and no way leads back from there. Main statement: `resolve_keepsSides`.
-/

namespace BuildRules

open Relation

namespace UnitGraph

section

variable {g : UnitGraph} {u v : UnitKey} {asked request : NameSet}

/-! ## Links to the host -/

/-- A build script needs everything on the host. -/
theorem Link.platform_of_isScript {rule : Rule} (h : g.Link u asked v request)
    (hrule : g.rule? u = some rule) (hscript : rule.isScript) : v.platform = g.host := by
  cases h with
  | @intro rule' next labels edge hrule' hselect hneeds hnext =>
    obtain rfl : rule = rule' := Option.some.inj (hrule.symm.trans hrule')
    have hedge : edge.platform = g.host := by
      cases hneeds with
      | dep | label | optional => exact if_pos hscript
      | procMacro => rfl
    unfold place
    dsimp only
    split
    · rfl
    · exact hedge

/-- What runs while others are built is needed on the host. -/
theorem Link.platform_of_runsOnHost {next : Rule} (h : g.Link u asked v request)
    (hnext : g.table.get? v.name = some next) (hkind : next.common.kind.runsOnHost) :
    v.platform = g.host := by
  cases h with
  | @intro rule next' labels edge hrule hselect hneeds hnext' =>
    obtain rfl : next = next' := Option.some.inj (hnext.symm.trans hnext')
    exact if_pos hkind

/-- A procedural macro is needed on the host. -/
theorem exists_link_procMacro {rule next : Rule} {labels : List String} {name : String}
    (hrule : g.rule? u = some rule)
    (hselect : rule.common.select u.platform = some (.compatible labels))
    (hname : name ∈ rule.common.procMacroDeps) (hnext : g.table.get? name = some next) :
    ∃ request, g.Link u asked ⟨name, g.host⟩ request := by
  have hplace : g.place ⟨name, g.host⟩ next = ⟨name, g.host⟩ := by
    unfold place
    rw [ite_self]
  rw [← hplace]
  exact ⟨_, .intro hrule hselect (.procMacro hname) hnext⟩

/-- On a unit that takes part on the host, or that is a build script's, all ways stay on the host. -/
theorem platform_of_leads {rule : Rule} (h : g.Leads u v) (hrule : g.rule? u = some rule)
    (hu : u.platform = g.host ∨ rule.isScript) : v.platform = g.host := by
  obtain ⟨asked, request, -, hlink⟩ := h
  rcases hu with hhost | hscript
  · rcases hlink.platform_eq with hstay | hhost'
    · rw [hstay, hhost]
    · exact hhost'
  · exact hlink.platform_of_isScript hrule hscript

/-- No way leads back from the host. -/
theorem platform_of_reflTransGen (h : ReflTransGen g.Leads u v) (hu : u.platform = g.host) :
    v.platform = g.host := by
  rcases reflTransGen_iff_eq_or_transGen.1 h with rfl | hway
  · exact hu
  · rcases platform_eq_of_transGen hway with hstay | hhost
    · rw [hstay, hu]
    · exact hhost

end

/-! ## Sides of a resolved target -/

variable (g : UnitGraph)

/-- The unit is one of a build script. -/
def IsScript (u : UnitKey) : Prop := ∃ rule, g.rule? u = some rule ∧ rule.isScript

/-- One step down that stays on the platform built for. The upper unit is no build script's. -/
structure Stays (res : Resolved) (u v : UnitKey) : Prop where
  dependsOn : res.DependsOn u v
  upper : u.platform = g.platform
  lower : v.platform = g.platform
  not_isScript : ¬ g.IsScript u

/-- The units of a resolved target stand on the side where they belong. -/
structure KeepsSides (res : Resolved) : Prop where
  platform : ∀ unit ∈ res.closure, unit.key.platform = g.platform ∨ unit.key.platform = g.host
  /-- What runs while others are built is built for the host. -/
  runs : ∀ unit ∈ res.closure, unit.kind = .procMacro ∨ unit.kind = .buildScript →
    unit.key.platform = g.host
  /-- What the host needs stands on the host. -/
  host : ∀ unit ∈ res.unit :: res.closure, unit.key.platform = g.host →
    ∀ d ∈ unit.deps, d.platform = g.host
  /-- So does what a build script needs, be it the root or not, and all that is below it. -/
  script : ∀ unit ∈ res.unit :: res.closure, g.IsScript unit.key →
    (∀ d ∈ unit.deps, d.platform = g.host) ∧
      ∀ v, TransGen res.DependsOn unit.key v → v.platform = g.host
  /-- So does a procedural macro, with all that is below it. -/
  procMacro : ∀ unit ∈ res.unit :: res.closure, ∀ rule, g.rule? unit.key = some rule →
    ∀ name ∈ rule.common.procMacroDeps, ⟨name, g.host⟩ ∈ unit.deps ∧
      ∀ v, ReflTransGen res.DependsOn ⟨name, g.host⟩ v → v.platform = g.host
  /-- What stands on the platform built for is there for a reason. -/
  target : ∀ unit ∈ res.closure, unit.key.platform = g.platform → g.platform ≠ g.host →
    (unit.kind = .library ∨ unit.kind = .binary) ∧ TransGen (g.Stays res) res.unit.key unit.key

end UnitGraph

namespace Resolver

section

variable {g : UnitGraph} {flags : List String} {requested : Requests} {walk : Walk}
variable {res : Resolved} {unit : BuildUnit} {v : UnitKey}

/-- A unit of a closure is led to by another unit of the graph. -/
theorem IsRead.exists_link (h : IsRead g flags requested walk res) (hunit : unit ∈ res.closure) :
    ∃ u asked request, g.Link u asked unit.key request := by
  have hway := h.mem_keys_iff.1 (List.mem_map_of_mem hunit)
  obtain ⟨u, -, asked, request, -, hlink⟩ := TransGen.tail'_iff.1 hway
  exact ⟨u, asked, request, hlink⟩

/-- What runs while others are built is built for the host. -/
theorem IsRead.platform_of_runsOnHost (h : IsRead g flags requested walk res)
    (hunit : unit ∈ res.closure) (hkind : unit.kind.runsOnHost) : unit.key.platform = g.host := by
  obtain ⟨u, asked, request, hlink⟩ := h.exists_link hunit
  obtain ⟨hmem, hne⟩ := h.mem_closure_iff.1 hunit
  obtain ⟨⟨rule, hrule, -⟩, -⟩ := h.of_mem hmem
  obtain ⟨hkind', -⟩ := h.declared hmem hrule
  unfold UnitGraph.rule? at hrule
  rw [if_neg hne] at hrule
  exact hlink.platform_of_runsOnHost hrule (hkind' ▸ hkind)

theorem IsRead.platform_of_mem_deps (h : IsRead g flags requested walk res)
    (hunit : unit ∈ res.unit :: res.closure)
    (hside : unit.key.platform = g.host ∨ g.IsScript unit.key) (hv : v ∈ unit.deps) :
    v.platform = g.host := by
  obtain ⟨⟨rule, hrule, -⟩, hdeps⟩ := h.of_mem hunit
  refine UnitGraph.platform_of_leads ((hdeps v).1 hv) hrule (hside.imp_right fun hscript => ?_)
  obtain ⟨rule', hrule', hscript'⟩ := hscript
  obtain rfl : rule = rule' := Option.some.inj (hrule.symm.trans hrule')
  exact hscript'

/-- A unit depends on its procedural macros on the host. -/
theorem IsRead.procMacro_mem_deps (h : IsRead g flags requested walk res) {rule : Rule}
    {name : String} (hunit : unit ∈ res.unit :: res.closure)
    (hrule : g.rule? unit.key = some rule) (hname : name ∈ rule.common.procMacroDeps) :
    ⟨name, g.host⟩ ∈ unit.deps := by
  have hdone := h.mem_iff.1 hunit
  obtain ⟨rule', hrule', hsettled⟩ := h.last.sound.settled _ _ hdone
  obtain rfl : rule = rule' := Option.some.inj (hrule.symm.trans hrule')
  obtain ⟨labels, ends, hends, -⟩ := hsettled.eq_unitFrom
  have hdeclared : name ∈ rule.common.declaredDeps ++ labels := by
    unfold Target.declaredDeps
    simp [hname]
  obtain ⟨next, hnext⟩ := Option.ne_none_iff_exists'.1 (hends.get?_ne_none hdeclared)
  have hfollows : g.Follows requested unit.key ⟨name, g.host⟩ :=
    UnitGraph.exists_link_procMacro hrule hends.select hname hnext
  obtain ⟨-, hdeps⟩ := hsettled.compatible hrule h.last.sound.key_eq
  exact (hdeps _).1.2 hfollows

/-- The way to a unit on the platform built for stays on that platform. -/
theorem IsRead.transGen_stays (h : IsRead g flags requested walk res)
    (hway : TransGen g.Leads g.rootKey v) (hv : v.platform = g.platform)
    (hne : g.platform ≠ g.host) : TransGen (g.Stays res) g.rootKey v := by
  -- one step up from the platform built for is on that platform too
  have hstep : ∀ {u w}, g.Leads u w → w.platform = g.platform → g.Stays res u w := by
    intro u w hleads hw
    have hoff : w.platform ≠ g.host := hw ▸ hne
    refine ⟨h.dependsOn_iff.2 hleads, ?_, hw, ?_⟩
    · obtain ⟨asked, request, -, hlink⟩ := hleads
      rw [← hlink.platform_eq.resolve_right hoff, hw]
    · rintro ⟨rule, hrule, hscript⟩
      exact hoff (UnitGraph.platform_of_leads hleads hrule (.inr hscript))
  induction hway with
  | single hlast => exact .single (hstep hlast hv)
  | tail _ hlast ih =>
    have hstays := hstep hlast hv
    exact .tail (ih hstays.upper) hstays

theorem IsRead.keepsSides (h : IsRead g flags requested walk res) : g.KeepsSides res where
  platform unit hunit := by
    have hhas := h.has_iff.2 ⟨unit, List.mem_cons_of_mem _ hunit, rfl⟩
    exact hhas.platform
  runs unit hunit hkind := by
    apply h.platform_of_runsOnHost hunit
    rcases hkind with hkind | hkind <;> rw [hkind] <;> rfl
  host unit hunit hside d hd := h.platform_of_mem_deps hunit (.inl hside) hd
  script unit hunit hscript := by
    have hdeps : ∀ d ∈ unit.deps, d.platform = g.host := fun d hd =>
      h.platform_of_mem_deps hunit (.inr hscript) hd
    refine ⟨hdeps, fun v hway => ?_⟩
    rw [h.dependsOn_eq] at hway
    obtain ⟨w, hfirst, hrest⟩ := TransGen.head'_iff.1 hway
    exact UnitGraph.platform_of_reflTransGen hrest (hdeps w (((h.of_mem hunit).2 w).2 hfirst))
  procMacro unit hunit rule hrule name hname := by
    refine ⟨h.procMacro_mem_deps hunit hrule hname, fun v hway => ?_⟩
    rw [h.dependsOn_eq] at hway
    exact UnitGraph.platform_of_reflTransGen hway rfl
  target unit hunit hside hne := by
    constructor
    · have hoff : unit.key.platform ≠ g.host := hside ▸ hne
      have hkind := mt (h.platform_of_runsOnHost hunit) hoff
      cases hkind' : unit.kind with
      | library => exact .inl rfl
      | binary => exact .inr rfl
      | procMacro | buildScript => exact absurd (by rw [hkind']; rfl) hkind
    · rw [h.key_eq]
      exact h.transGen_stays (h.mem_keys_iff.1 (List.mem_map_of_mem hunit)) hside hne

end

/-- In a resolved target every unit stands on the side where it belongs, whatever side the root is
on and whatever kind it is of. -/
theorem resolve_keepsSides {r : Resolver} {rule : Rule} {platform : Platform} {res : Resolved}
    (h : r.resolveRule rule platform = .ok (.compatible res)) :
    (r.graph rule platform).KeepsSides res := by
  obtain ⟨requested, walk, hread⟩ := exists_isRead h
  exact hread.keepsSides

/-- A table for builds on another machine: `gen` and `derive` run there, and all need `base`. -/
def crossed : Resolver where
  table :=
    ⟨.ofList
      [ ("base", .target (.library "base")),
        ("derive", .target
          { Target.library "derive" with kind := .procMacro, deps := ["base"] }),
        ("gen", .script
          ((Script.ofRoot "gen" "build.rs").setTarget
            { Target.library "gen" with crateRoot := some "build.rs", deps := ["base"] })) ],
      by decide +kernel⟩
  settings := { hostPlatform := some "x86_64-unknown-linux-gnu" }
  host? := some ⟨"x86_64-unknown-linux-gnu"⟩

theorem ofSettings_crossed : Resolver.ofSettings crossed.table crossed.settings = .ok crossed := rfl

/-- A library that needs all three. -/
def crossing : Rule :=
  .target { Target.library "app" with deps := ["base", "gen"], procMacroDeps := ["derive"] }

/-- What it comes to for `wasm32`: `base` is built twice. -/
def crossResult : Resolved where
  rule := crossing
  unit :=
    { key := ⟨"app", ⟨"wasm32"⟩⟩, kind := .library, features := ∅, compilerFlags := []
      deps :=
        [ ⟨"base", ⟨"wasm32"⟩⟩, ⟨"gen", ⟨"x86_64-unknown-linux-gnu"⟩⟩,
          ⟨"derive", ⟨"x86_64-unknown-linux-gnu"⟩⟩ ]
      scriptEnv := .ofList
        [ ("CARGO_CFG_TARGET_ARCH", "wasm32"), ("CARGO_PKG_NAME", "app"),
          ("CARGO_PKG_VERSION", "0.0.0"), ("HOST", "x86_64-unknown-linux-gnu"),
          ("TARGET", "wasm32") ]
      aliases := ∅ }
  closure :=
    [ { key := ⟨"base", ⟨"wasm32"⟩⟩, kind := .library, features := ∅, compilerFlags := []
        deps := [], scriptEnv := ∅, aliases := ∅ },
      { key := ⟨"base", ⟨"x86_64-unknown-linux-gnu"⟩⟩, kind := .library, features := ∅
        compilerFlags := [], deps := [], scriptEnv := ∅, aliases := ∅ },
      { key := ⟨"gen", ⟨"x86_64-unknown-linux-gnu"⟩⟩, kind := .buildScript, features := ∅
        compilerFlags := [], deps := [⟨"base", ⟨"x86_64-unknown-linux-gnu"⟩⟩], scriptEnv := ∅
        aliases := ∅ },
      { key := ⟨"derive", ⟨"x86_64-unknown-linux-gnu"⟩⟩, kind := .procMacro, features := ∅
        compilerFlags := [], deps := [⟨"base", ⟨"x86_64-unknown-linux-gnu"⟩⟩], scriptEnv := ∅
        aliases := ∅ } ]

theorem resolveRule_crossed :
    crossed.resolveRule crossing ⟨"wasm32"⟩ = .ok (.compatible crossResult) := by
  decide +kernel

theorem resolve_keepsSides_crossed :
    crossed.resolveRule crossing ⟨"wasm32"⟩ = .ok (.compatible crossResult) ∧
      (crossed.graph crossing ⟨"wasm32"⟩).KeepsSides crossResult :=
  ⟨resolveRule_crossed, resolve_keepsSides resolveRule_crossed⟩

end Resolver

end BuildRules
