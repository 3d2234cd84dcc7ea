import BuildRules.Collection.SortedMap
import BuildRules.Platform

/-!
# Constraint maps

What a target needs on each platform: a list of labels for some platforms and, perhaps, a list for
all others. The labels are further dependencies, unless the incompatible label is among them: then
the target does not take part on that platform. Main statements: `select_eq_none_iff` and
`select_eq_incompatible_iff`.
-/

namespace BuildRules

/-- The condition that stands for every platform without a condition of its own. -/
def defaultCondition : String := "//conditions:default"

def incompatibleLabel : String := "@platforms//:incompatible"

/-- Labels under conditions, as they are declared. -/
abbrev Conditions := SortedMap String (List String)

structure ConstraintMap where
  entries : SortedMap Platform (List String) := ∅
  fallback : Option (List String) := none
  deriving DecidableEq

/-- What a constraint map selects for a platform. -/
inductive Selection
  | compatible (labels : List String)
  | incompatible (viaFallback : Bool)
  deriving DecidableEq

namespace ConstraintMap

/-- Compatible with the given platforms and no others. -/
def compatibleWith (platforms : List Platform) : ConstraintMap :=
  { entries := .ofList (platforms.map fun p => (p, []))
    fallback := some [incompatibleLabel] }

def setPlatform (map : ConstraintMap) (platform : Platform) (labels : List String) :
    ConstraintMap :=
  { map with entries := map.entries.insert platform labels }

def setFallback (map : ConstraintMap) (labels : List String) : ConstraintMap :=
  { map with fallback := some labels }

/-- Adds the labels of one declared condition. -/
def addCondition (map : ConstraintMap) (condition : String × List String) :
    Except RuleError ConstraintMap :=
  if condition.1 = defaultCondition then .ok (map.setFallback condition.2)
  else do
    let platform ← Platform.ofLabel condition.1
    if map.entries.contains platform then .error (.duplicateCondition platform.text)
    else .ok (map.setPlatform platform condition.2)

/-- The map of declared conditions, each a platform or the default condition. -/
def ofConditions (conditions : Conditions) : Except RuleError ConstraintMap :=
  conditions.toList.foldlM addCondition {}

def platforms (map : ConstraintMap) : List Platform := map.entries.keys

def hasFallback (map : ConstraintMap) : Bool := map.fallback.isSome

/-- The labels for a platform, and whether they are the fallback's. -/
def lookup (map : ConstraintMap) (platform : Platform) : Option (List String × Bool) :=
  match map.entries.get? platform with
  | some labels => some (labels, false)
  | none => map.fallback.map fun labels => (labels, true)

def select (map : ConstraintMap) (platform : Platform) : Option Selection :=
  (map.lookup platform).map fun (labels, viaFallback) =>
    if incompatibleLabel ∈ labels then .incompatible viaFallback else .compatible labels

/-- What is looked up is the fallback only where the platform has no entry of its own. -/
theorem viaFallback_iff_of_lookup {map : ConstraintMap} {platform : Platform}
    {labels : List String} {viaFallback : Bool}
    (h : map.lookup platform = some (labels, viaFallback)) :
    viaFallback = true ↔ map.entries.get? platform = none := by
  unfold lookup at h
  split at h
  · next found hentry =>
    cases h
    simp [hentry]
  · next hentry =>
    obtain ⟨found, -, heq⟩ := Option.map_eq_some_iff.1 h
    cases heq
    simp [hentry]

theorem select_eq_none_iff {map : ConstraintMap} {platform : Platform} :
    map.select platform = none ↔ map.entries.get? platform = none ∧ map.fallback = none := by
  unfold select lookup
  cases map.entries.get? platform with
  | none => simp
  | some labels => simp

theorem select_eq_incompatible_iff {map : ConstraintMap} {platform : Platform}
    {viaFallback : Bool} :
    map.select platform = some (.incompatible viaFallback) ↔
      ∃ labels, map.lookup platform = some (labels, viaFallback) ∧ incompatibleLabel ∈ labels := by
  unfold select
  rw [Option.map_eq_some_iff]
  constructor
  · intro h
    obtain ⟨⟨labels, via⟩, hlookup, hselection⟩ := h
    dsimp only at hselection
    split at hselection
    · next hmem =>
      cases hselection
      exact ⟨labels, hlookup, hmem⟩
    · cases hselection
  · intro h
    obtain ⟨labels, hlookup, hmem⟩ := h
    exact ⟨(labels, viaFallback), hlookup, if_pos hmem⟩

def isCompatibleWith (map : ConstraintMap) (platform : Platform) : Bool :=
  match map.select platform with
  | some (.compatible _) => true
  | _ => false

/-- Every label that the map can select as a dependency. -/
def allLabels (map : ConstraintMap) : List String :=
  (map.entries.values.flatten ++ map.fallback.getD []).filter (· ≠ incompatibleLabel)

/-- What is looked up stands in the map. -/
theorem mem_of_lookup {map : ConstraintMap} {platform : Platform} {labels : List String}
    {viaFallback : Bool} (h : map.lookup platform = some (labels, viaFallback)) {label : String}
    (hlabel : label ∈ labels) : label ∈ map.entries.values.flatten ++ map.fallback.getD [] := by
  unfold lookup at h
  split at h
  · next found hfound =>
    cases h
    have hentry := SortedMap.mem_toList_iff.2 hfound
    exact List.mem_append_left _ (List.mem_flatten.2 ⟨labels, List.mem_map_of_mem hentry, hlabel⟩)
  · obtain ⟨found, hfound, heq⟩ := Option.map_eq_some_iff.1 h
    cases heq
    exact List.mem_append_right _ (by simpa [hfound] using hlabel)

/-- The labels selected for a platform are among those that can be. -/
theorem mem_allLabels_of_select {map : ConstraintMap} {platform : Platform} {labels : List String}
    (h : map.select platform = some (.compatible labels)) {label : String}
    (hlabel : label ∈ labels) : label ∈ map.allLabels := by
  obtain ⟨⟨found, viaFallback⟩, hlookup, hselection⟩ := Option.map_eq_some_iff.1 h
  dsimp only at hselection
  split at hselection
  · cases hselection
  · next hnot =>
    cases hselection
    refine List.mem_filter.2 ⟨mem_of_lookup hlookup hlabel, decide_eq_true ?_⟩
    rintro rfl
    exact hnot hlabel

end ConstraintMap

end BuildRules
