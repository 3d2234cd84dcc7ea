import BuildRules.Collection.SortedMap
import BuildRules.Collection.SortedSet
import BuildRules.Text.Cut

/-!
# Features

A target enables features, and its feature map says what each of them implies: further features, the
use of an optional dependency, or a feature of a dependency. Flattening follows the map from the
requested entries and tells what was reached.
-/

namespace BuildRules

abbrev NameSet := SortedSet String

/-- What each feature implies. -/
abbrev FeatureMap := SortedMap String (List String)

/-! ## Entries -/

/-- An entry of a feature list. -/
inductive FeatureEntry
  | feature (name : String)
  /-- Written `dep:name`. -/
  | dependency (name : String)
  /-- Written `dependency/feature`, or `dependency?/feature` if it is weak: then it asks for the
  feature without asking for the dependency. -/
  | request (dependency feature : String) (weak : Bool)
  deriving DecidableEq

def FeatureEntry.ofText (text : String) : FeatureEntry :=
  match Text.dropStart? "dep:" text with
  | some name => .dependency name
  | none =>
    match Text.cutFirst? '/' text with
    | none => .feature text
    | some (name, wanted) =>
      match Text.dropLast? '?' name with
      | some name => .request name wanted true
      | none => .request name wanted false

/-! ## Reached entries -/

namespace FeatureMap

/-- The number of entries in the lists of a map. -/
def weight (map : FeatureMap) : Nat := map.toList.foldr (fun e n => e.2.length + n) 0

private theorem lookup_length_add_le (name : String) (l : List (String × List String)) :
    ((l.lookup name).getD []).length
      + (l.filter fun e => e.1 ≠ name).foldr (fun e n => e.2.length + n) 0
      ≤ l.foldr (fun e n => e.2.length + n) 0 := by
  induction l with
  | nil => simp
  | cons e rest ih =>
    obtain ⟨k, v⟩ := e
    by_cases h : k = name
    · subst h
      simp only [List.lookup_cons, beq_self_eq_true, Option.getD_some, List.filter_cons, ne_eq,
        not_true_eq_false, decide_false, Bool.false_eq_true, if_false, List.foldr_cons] at ih ⊢
      omega
    · simp only [List.lookup_cons, beq_false_of_ne (Ne.symm h), List.filter_cons, ne_eq, h,
        not_false_eq_true, decide_true, if_true, List.foldr_cons] at ih ⊢
      omega

theorem getD_length_add_weight_erase_le (map : FeatureMap) (name : String) :
    (map.getD name []).length + weight (SortedMap.erase map name) ≤ map.weight :=
  lookup_length_add_le name map.toList

/-- The entries reached from those pending. A feature is followed once: its entry then leaves the
map. -/
def reach (map : FeatureMap) : List String → List FeatureEntry
  | [] => []
  | text :: pending =>
    match FeatureEntry.ofText text with
    | .feature name =>
      .feature name :: reach (SortedMap.erase map name) (map.getD name [] ++ pending)
    | entry => entry :: reach map pending
  termination_by pending => map.weight + pending.length
  decreasing_by
    · have := map.getD_length_add_weight_erase_le name
      simp only [List.length_append, List.length_cons]
      omega
    · simp

end FeatureMap

/-! ## Flattening -/

/-- What a target's features amount to. -/
structure FeatureSelection where
  enabled : NameSet := ∅
  /-- The optional dependencies asked for. -/
  activated : NameSet := ∅
  /-- The features asked for of each dependency, weakly or not. -/
  requests : SortedMap String NameSet := ∅
  deriving DecidableEq

namespace FeatureSelection

def record (s : FeatureSelection) : FeatureEntry → FeatureSelection
  | .feature name => { s with enabled := s.enabled.insert name }
  | .dependency name => { s with activated := s.activated.insert name }
  | .request dependency feature weak =>
    { s with
      activated := if weak then s.activated else s.activated.insert dependency
      requests := s.requests.insert dependency ((s.requests.getD dependency ∅).insert feature) }

/-- The features asked for of a dependency. -/
def requestsOn (s : FeatureSelection) (dependency : String) : NameSet :=
  s.requests.getD dependency ∅

end FeatureSelection

/-- Follows the requested entries through a feature map. -/
def FeatureMap.flatten (map : FeatureMap) (requested : NameSet) : FeatureSelection :=
  (map.reach requested.toList).foldl FeatureSelection.record {}

end BuildRules
