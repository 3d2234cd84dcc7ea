import BuildRules.Graph
import BuildRules.Rule

/-!
# Tables of rules

A table holds rules under their names. It is built by adding one rule at a time, so every rule in it
is valid. Main statements: `name_of_get?` and `isValid_of_get?`.
-/

namespace BuildRules

/-- Rules under their names, all of them valid. -/
structure RuleTable where
  rules : SortedMap String Rule
  sound : ∀ entry ∈ rules.toList, entry.2.name = entry.1 ∧ entry.2.common.IsValid

namespace RuleTable

def empty : RuleTable := ⟨∅, by simp⟩

instance : Inhabited RuleTable := ⟨empty⟩

def get? (table : RuleTable) (name : String) : Option Rule := table.rules.get? name

def names (table : RuleTable) : List String := table.rules.keys

def size (table : RuleTable) : Nat := table.rules.size

theorem length_names (table : RuleTable) : table.names.length = table.size := by
  simp [names, size, SortedMap.keys, SortedMap.size]

theorem mem_names_of_get? {table : RuleTable} {name : String} {rule : Rule}
    (h : table.get? name = some rule) : name ∈ table.names := by
  apply SortedMap.contains_iff_mem_keys.1
  simp only [SortedMap.contains, Option.isSome_iff_exists]
  exact ⟨rule, h⟩

theorem exists_of_mem_names {table : RuleTable} {name : String} (h : name ∈ table.names) :
    ∃ rule, table.get? name = some rule := by
  have hcontains := SortedMap.contains_iff_mem_keys.2 h
  exact Option.isSome_iff_exists.1 hcontains

theorem mem_names_iff {table : RuleTable} {name : String} :
    name ∈ table.names ↔ table.get? name ≠ none := by
  rw [names, ← SortedMap.contains_iff_mem_keys]
  exact Option.isSome_iff_ne_none

theorem mem_values_of_get? {table : RuleTable} {name : String} {rule : Rule}
    (h : table.get? name = some rule) : rule ∈ table.rules.values :=
  List.mem_map_of_mem (SortedMap.mem_toList_iff.2 h)

theorem name_of_get? {table : RuleTable} {name : String} {rule : Rule}
    (h : table.get? name = some rule) : rule.name = name :=
  (table.sound (name, rule) (SortedMap.mem_toList_iff.2 h)).1

theorem isValid_of_get? {table : RuleTable} {name : String} {rule : Rule}
    (h : table.get? name = some rule) : rule.common.IsValid :=
  (table.sound (name, rule) (SortedMap.mem_toList_iff.2 h)).2

private theorem sound_insert {table : RuleTable} {rule : Rule}
    (h : rule.common.validate = .ok ()) :
    ∀ entry ∈ (table.rules.insert rule.name rule).toList,
      entry.2.name = entry.1 ∧ entry.2.common.IsValid := by
  rintro ⟨name, r⟩ hmem
  have := SortedMap.mem_toList_iff.1 hmem
  rw [SortedMap.get?_insert] at this
  split at this
  · next hn =>
    cases this
    exact ⟨hn.symm, Target.validate_eq_ok_iff.1 h⟩
  · exact table.sound (name, r) (SortedMap.mem_toList_iff.2 this)

/-- The table with one more rule, which must be valid and have a name of its own. -/
def insert (table : RuleTable) (rule : Rule) : Except RuleError RuleTable :=
  match h : rule.common.validate with
  | .error e => .error e
  | .ok () =>
    if table.rules.contains rule.name then .error (.duplicateTarget rule.name)
    else .ok ⟨table.rules.insert rule.name rule, sound_insert h⟩

/-- The graph of everything that rules may depend on, on some platform and with some features. -/
def graph (table : RuleTable) : BuildGraph :=
  ⟨table.rules.mapValues fun rule => rule.common.dependencyNames⟩

/-- Refuses a table with a dependency on a name it lacks, or with a cycle of dependencies. -/
def check (table : RuleTable) : Except RuleError Unit := do
  table.graph.validate
  let _ ← table.graph.order

end RuleTable

end BuildRules
