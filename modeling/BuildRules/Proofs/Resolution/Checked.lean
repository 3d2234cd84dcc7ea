import BuildRules.Proofs.Resolution.Refusal
import BuildRules.Resolution.Plan

/-!
# Resolving in a checked table

A check looks at names alone, while a walk follows units on two platforms under features that grow
from walk to walk. Still what a walk can find wrong below a rule of the table shows in the names, but
for a platform that no condition matches. Main statement: `check_resolves`.
-/

namespace BuildRules

/-- The error of a target whose conditions do not match a platform. -/
def RuleError.IsUnmatched (e : RuleError) : Prop :=
  ∃ target platform, e = .noMatchingCondition target platform

namespace RuleTable

variable {table : RuleTable}

/-- No name of a checked table leads back to itself. -/
theorem IsChecked.not_isCycle (h : table.IsChecked) {path : List String} :
    ¬ IsCycle table.DependsOn path := by
  intro hcycle
  obtain ⟨first, between, rfl, -⟩ := hcycle.closed
  have hloop := hcycle.transGen List.mem_cons_self List.mem_cons_self
  exact not_transGen_self_of_acc (h.wellFounded.apply first) hloop

/-- Every constraint map of the table has an entry for the platforms without one of their own. -/
def HasFallbacks (table : RuleTable) : Prop :=
  ∀ rule ∈ table.rules.values, ∀ map ∈ rule.common.constraints, map.hasFallback

instance (table : RuleTable) : Decidable table.HasFallbacks :=
  inferInstanceAs (Decidable (∀ rule ∈ table.rules.values,
    ∀ map ∈ rule.common.constraints, map.hasFallback))

end RuleTable

namespace UnitGraph

variable {g : UnitGraph} {e : RuleError}

/-- In a checked table the only true error is that of conditions that do not match. -/
theorem Bears.isUnmatched (h : g.Bears e) (hchecked : g.table.IsChecked) : e.IsUnmatched := by
  cases e with
  | undefinedDependency target dependency =>
    obtain ⟨u, -, -, hdepends, hmissing⟩ := h
    exact absurd hmissing (hchecked.defined target dependency hdepends)
  | cycle path =>
    obtain ⟨platform, hcycle⟩ := h
    obtain ⟨first, between, hpath, -, hnodup⟩ := hcycle.closed
    have hnames : IsCycle g.table.DependsOn path :=
      ⟨hcycle.chain.imp fun _ _ hstep => hstep.2, first, between, hpath, hnodup⟩
    exact absurd hnames hchecked.not_isCycle
  | noMatchingCondition target platform => exact ⟨target, platform, rfl⟩
  | _ => exact h.elim

/-- Where every constraint map has a fallback no such error is true. -/
theorem Bears.not_isUnmatched (h : g.Bears e) (hfallbacks : g.table.HasFallbacks) :
    ¬ e.IsUnmatched := by
  rintro ⟨target, platform, rfl⟩
  obtain ⟨u, rule, map, -, -, -, -, hrule, hmap, -, hnone⟩ := h
  have hsome := hfallbacks rule (RuleTable.mem_values_of_get? hrule) map hmap
  rw [ConstraintMap.hasFallback, hnone] at hsome
  cases hsome

end UnitGraph

namespace Resolver

variable {r : Resolver} {name : String} {platform : Platform} {e : RuleError}

theorem exists_bears_of_resolve (hname : name ∈ r.table.names)
    (h : r.resolve name platform = .error e) : ∃ rule, (r.graph rule platform).Bears e := by
  obtain ⟨rule, hrule⟩ := RuleTable.exists_of_mem_names hname
  rw [resolve_of_get? hrule] at h
  have heq : rule.name = name := RuleTable.name_of_get? hrule
  exact ⟨rule, bears_of_resolveRule (heq ▸ hrule) h⟩

theorem exists_bears_of_mem_failures (h : (name, e) ∈ (r.plan platform).failures) :
    ∃ rule, (r.graph rule platform).Bears e := by
  obtain ⟨rule, hrule, -, hresult⟩ := mem_failures_plan_iff.1 h
  have heq : rule.name = name := RuleTable.name_of_get? hrule
  exact ⟨rule, bears_of_resolveRule (heq ▸ hrule) hresult⟩

/-- In a table that has been checked, resolving fails only where no condition matches. So do plans,
and if every constraint map has a fallback nothing fails. -/
theorem check_resolves {r : Resolver} (hcheck : r.table.check = .ok ()) :
    (∀ name ∈ r.table.names, ∀ platform,
      (∃ res, r.resolve name platform = .ok (.compatible res)) ∨
      (∃ reason, r.resolve name platform = .ok (.incompatible reason)) ∨
      ∃ e, r.resolve name platform = .error e ∧ e.IsUnmatched) ∧
    (∀ platform, ∀ failure ∈ (r.plan platform).failures, failure.2.IsUnmatched) ∧
    (r.table.HasFallbacks → ∀ platform,
      (∀ name ∈ r.table.names, ∃ resolution, r.resolve name platform = .ok resolution) ∧
      (r.plan platform).failures = []) := by
  have hchecked := RuleTable.isChecked_of_check hcheck
  refine ⟨fun name hname platform => ?_, fun platform failure hfailure => ?_,
    fun hfallbacks platform => ⟨fun name hname => ?_, ?_⟩⟩
  · cases hresult : r.resolve name platform with
    | ok resolution => cases resolution <;> simp
    | error e =>
      obtain ⟨rule, hbears⟩ := exists_bears_of_resolve hname hresult
      exact .inr (.inr ⟨e, rfl, hbears.isUnmatched hchecked⟩)
  · obtain ⟨rule, hbears⟩ := exists_bears_of_mem_failures hfailure
    exact hbears.isUnmatched hchecked
  · cases hresult : r.resolve name platform with
    | ok resolution => exact ⟨resolution, rfl⟩
    | error e =>
      obtain ⟨rule, hbears⟩ := exists_bears_of_resolve hname hresult
      exact absurd (hbears.isUnmatched hchecked) (hbears.not_isUnmatched hfallbacks)
  · apply List.eq_nil_iff_forall_not_mem.2
    intro failure hfailure
    obtain ⟨rule, hbears⟩ := exists_bears_of_mem_failures hfailure
    exact hbears.not_isUnmatched hfallbacks (hbears.isUnmatched hchecked)

/-- A library that needs another one on one platform only. -/
def sided : Resolver where
  table :=
    ⟨.ofList
      [ ("app", .target
          { Target.library "app" with
            deps := ["base"]
            constraints := some
              ((ConstraintMap.setPlatform {} ⟨"linux"⟩ ["extra"]).setFallback []) }),
        ("base", .target (.library "base")),
        ("extra", .target { Target.library "extra" with deps := ["base"] }) ],
      by decide +kernel⟩
  settings := {}
  host? := none

theorem check_resolves_sided :
    sided.table.check = .ok () ∧ sided.table.HasFallbacks ∧
      ∀ platform, (∀ name ∈ sided.table.names, ∃ resolution,
        sided.resolve name platform = .ok resolution) ∧ (sided.plan platform).failures = [] := by
  have hcheck : sided.table.check = .ok () := by decide +kernel
  have hfallbacks : sided.table.HasFallbacks := by decide +kernel
  exact ⟨hcheck, hfallbacks, (check_resolves hcheck).2.2 hfallbacks⟩

end Resolver

end BuildRules
