import BuildRules.Proofs.Graph.Search
import BuildRules.Proofs.Rule.Table

/-!
# What a check decides

A check accepts exactly the tables in which every name that a rule lists has a rule, and no name
leads back to itself. What it refuses a table with is true of the table. Main statement:
`check_exact`.
-/

namespace BuildRules

open Relation

/-! ## Names that a target lists -/

namespace ConstraintMap

variable {map : ConstraintMap} {name : String}

/-- The labels stand in the map, for some platform or for all others. -/
def Offers (map : ConstraintMap) (labels : List String) : Prop :=
  labels ∈ map.entries.values ∨ map.fallback = some labels

theorem mem_allLabels_iff :
    name ∈ map.allLabels ↔
      ∃ labels, map.Offers labels ∧ name ∈ labels ∧ name ≠ incompatibleLabel := by
  have hfallback : name ∈ map.fallback.getD [] ↔
      ∃ labels, map.fallback = some labels ∧ name ∈ labels := by
    cases map.fallback <;> simp
  simp only [allLabels, Offers, List.mem_filter, List.mem_append, List.mem_flatten, hfallback,
    or_and_right, exists_or, decide_eq_true_eq, ← and_assoc, exists_and_right]

end ConstraintMap

namespace Target

variable {t : Target} {name : String}

/-- The target lists a name among its dependencies of some kind or in its constraint map, where the
incompatible label is no dependency. -/
def Lists (t : Target) (name : String) : Prop :=
  name ∈ t.deps ∨ name ∈ t.procMacroDeps ∨ name ∈ t.optionalDeps ∨
    ∃ map labels, t.constraints = some map ∧ map.Offers labels ∧ name ∈ labels ∧
      name ≠ incompatibleLabel

theorem mem_dependencyNames_iff : name ∈ t.dependencyNames ↔ t.Lists name := by
  have hlabels : name ∈ (t.constraints.map ConstraintMap.allLabels).getD [] ↔
      ∃ map labels, t.constraints = some map ∧ map.Offers labels ∧ name ∈ labels ∧
        name ≠ incompatibleLabel := by
    cases t.constraints <;> simp [ConstraintMap.mem_allLabels_iff]
  simp only [dependencyNames, declaredDeps, Lists, List.mem_append, hlabels, or_assoc]

end Target

namespace RuleTable

variable (table : RuleTable)

/-- The rule of a name lists another name. -/
def Lists (name dependency : String) : Prop :=
  ∃ rule, table.get? name = some rule ∧ rule.common.Lists dependency

/-- Every name that a rule lists has a rule. -/
def Complete : Prop := ∀ name dependency, table.Lists name dependency → dependency ∈ table.names

/-- What an error says about the table that it is found in. -/
def Faults : RuleError → Prop
  | .undefinedDependency target dependency =>
    table.Lists target dependency ∧ dependency ∉ table.names
  | .cycle path => table.Complete ∧ IsCycle table.Lists path
  | _ => False

variable {table}

/-- The graph that is checked has the names that rules list for its edges. -/
theorem dependsOn_graph : table.graph.DependsOn = table.Lists := by
  funext name dependency
  simp only [dependsOn_graph_iff, DependsOn, Lists, Target.mem_dependencyNames_iff]

theorem get?_graph_ne_none_iff {name : String} :
    table.graph.get? name ≠ none ↔ name ∈ table.names := by
  simp [get?_graph, mem_names_iff]

/-! ## The check -/

theorem complete_iff :
    table.Complete ↔ ∀ name dependency, table.graph.DependsOn name dependency →
      table.graph.get? dependency ≠ none := by
  simp only [Complete, dependsOn_graph, get?_graph_ne_none_iff]

theorem faults_of_validate {e : RuleError} (h : table.graph.validate = .error e) :
    table.Faults e := by
  obtain ⟨target, dependency, rfl, hdepends, hmissing⟩ := BuildGraph.validate_eq_error h
  rw [dependsOn_graph] at hdepends
  refine ⟨hdepends, fun hname => ?_⟩
  exact get?_graph_ne_none_iff.2 hname hmissing

theorem faults_of_order {e : RuleError} (hcomplete : table.Complete)
    (h : table.graph.order = .error e) : table.Faults e := by
  obtain ⟨path, rfl, hcycle⟩ := BuildGraph.order_eq_error (complete_iff.1 hcomplete) h
  rw [dependsOn_graph] at hcycle
  exact ⟨hcomplete, hcycle⟩

/-- A check refuses a table only with what is true of it. -/
theorem faults_of_check {e : RuleError} (h : table.check = .error e) : table.Faults e := by
  unfold check at h
  cases hvalidate : table.graph.validate with
  | error e' =>
    rw [hvalidate] at h
    cases h
    exact faults_of_validate hvalidate
  | ok =>
    rw [hvalidate] at h
    have hcomplete := complete_iff.2 (BuildGraph.validate_eq_ok_iff.1 hvalidate)
    cases horder : table.graph.order with
    | error e' =>
      rw [horder] at h
      cases h
      exact faults_of_order hcomplete horder
    | ok built =>
      rw [horder] at h
      cases h

/-- Of a table that is complete and has no cycle no error is true. -/
theorem not_faults (hcomplete : table.Complete)
    (hacyclic : ∀ name, ¬ TransGen table.Lists name name) (e : RuleError) : ¬ table.Faults e := by
  cases e with
  | undefinedDependency target dependency =>
    rintro ⟨hlists, hmissing⟩
    exact hmissing (hcomplete target dependency hlists)
  | cycle path =>
    rintro ⟨-, hcycle⟩
    obtain ⟨first, between, rfl, -⟩ := hcycle.closed
    exact hacyclic first (hcycle.transGen List.mem_cons_self List.mem_cons_self)
  | _ => exact id

/-- What a check establishes, said of the names that rules list. -/
theorem IsChecked.sound (h : table.IsChecked) :
    table.Complete ∧ ∀ name, ¬ TransGen table.Lists name name := by
  obtain ⟨hdefined, hwellFounded⟩ := h
  have hlists : table.DependsOn = table.Lists := by
    funext name dependency
    rw [← dependsOn_graph, dependsOn_graph_iff]
  rw [hlists] at hdefined hwellFounded
  exact ⟨fun name dependency h => mem_names_iff.2 (hdefined name dependency h),
    fun name => not_transGen_self_of_acc (hwellFounded.apply name)⟩

/-- A check accepts exactly the tables in which every name that is listed has a rule and no name
leads back to itself, and it refuses the others with a listed name that has no rule or, if there is
none, with a cycle. -/
theorem check_exact (table : RuleTable) :
    (table.check = .ok () ↔ table.Complete ∧ ∀ name, ¬ TransGen table.Lists name name) ∧
      ∀ e, table.check = .error e → table.Faults e := by
  refine ⟨⟨fun h => (isChecked_of_check h).sound, fun h => ?_⟩, fun e => faults_of_check⟩
  cases hcheck : table.check with
  | ok => rfl
  | error e => exact absurd (faults_of_check hcheck) (not_faults h.1 h.2 e)

end RuleTable

end BuildRules
