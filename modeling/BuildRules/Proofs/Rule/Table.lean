import BuildRules.Proofs.Graph.Order
import BuildRules.Rule.Table

/-!
# Checked tables

What a check of a table establishes about the names in it: none is missing, and no name depends on
itself, however indirectly. Main statement: `isChecked_of_check`.
-/

namespace BuildRules

namespace RuleTable

variable (table : RuleTable)

/-- The rule of a name may depend on another name, on some platform and with some features. -/
def DependsOn (name dependency : String) : Prop :=
  ∃ rule, table.get? name = some rule ∧ dependency ∈ rule.common.dependencyNames

/-- What a check establishes. -/
structure IsChecked : Prop where
  defined : ∀ name dependency, table.DependsOn name dependency → table.get? dependency ≠ none
  wellFounded : WellFounded fun dependency name => table.DependsOn name dependency

variable {table}

theorem get?_graph (name : String) :
    table.graph.get? name = (table.get? name).map fun rule => rule.common.dependencyNames :=
  SortedMap.get?_mapValues _ _ _

theorem dependsOn_graph_iff {name dependency : String} :
    table.graph.DependsOn name dependency ↔ table.DependsOn name dependency := by
  simp only [BuildGraph.DependsOn, DependsOn, get?_graph, Option.map_eq_some_iff,
    exists_exists_and_eq_and]

/-- A rule of a table does not list itself. -/
theorem not_dependsOn_self (name : String) : ¬ table.DependsOn name name := by
  rintro ⟨rule, hget, hmem⟩
  have hname : rule.common.name = name := name_of_get? hget
  exact (isValid_of_get? hget).noSelf (hname ▸ hmem)

/-- A check passes only if everything is defined and there is a build order. -/
theorem exists_order_of_check (h : table.check = .ok ()) :
    table.graph.validate = .ok () ∧ ∃ built, table.graph.order = .ok built := by
  unfold check at h
  cases hvalidate : table.graph.validate with
  | error e =>
    rw [hvalidate] at h
    cases h
  | ok =>
    rw [hvalidate] at h
    cases horder : table.graph.order with
    | error e =>
      rw [horder] at h
      cases h
    | ok built => exact ⟨rfl, built, rfl⟩

theorem isChecked_of_check (h : table.check = .ok ()) : table.IsChecked := by
  obtain ⟨hvalidate, built, horder⟩ := exists_order_of_check h
  obtain ⟨hscheduled, hall⟩ := BuildGraph.order_scheduled horder
  refine ⟨fun name dependency hdepends => ?_, ⟨fun name => ?_⟩⟩
  · have hget := BuildGraph.validate_eq_ok_iff.1 hvalidate name dependency
      (dependsOn_graph_iff.2 hdepends)
    rw [get?_graph] at hget
    simpa using hget
  · by_cases hname : name ∈ table.graph.units.keys
    · have hacc := hscheduled.acc (hall name hname)
      simpa only [dependsOn_graph_iff] using hacc
    · -- a name without a rule depends on nothing
      refine .intro name fun dependency hdepends => absurd ?_ hname
      obtain ⟨dependencies, hget, -⟩ := dependsOn_graph_iff.2 hdepends
      exact List.mem_map_of_mem (SortedMap.mem_toList_iff.2 hget)

end RuleTable

end BuildRules
