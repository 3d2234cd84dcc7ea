import BuildRules.Collection.SortedMap
import BuildRules.Collection.SortedSet

/-!
# Cycles

Closing a path at a node it already holds, and the depth-first search for such a path in a map of
dependencies. A path is kept with its latest node first, and a cycle is told in the order of its
edges with its first node repeated at the end.
-/

namespace BuildRules

/-- The cycle that a path closes when it comes back to `a`. -/
def closePath {α : Type} [DecidableEq α] (path : List α) (a : α) : List α :=
  a :: ((path.takeWhile (· ≠ a)).reverse ++ [a])

/-- The names that each unit depends on. -/
abbrev Dependencies := SortedMap String (List String)

/-- Searches below `id`, coming from `path`. Returns the names seen so far, or the cycle found. -/
def seekCycle (units : Dependencies) :
    Nat → List String → SortedSet String → String → Except (List String) (SortedSet String)
  | 0, _, seen, _ => .ok seen
  | depth + 1, path, seen, id =>
    if id ∈ path then .error (closePath path id)
    else if id ∈ seen then .ok seen
    else (units.getD id []).foldlM (seekCycle units depth (id :: path)) (seen.insert id)

/-- The first cycle met from the units in order; empty if there is none. A path of distinct units
has at most one more node, and one step more closes it. -/
def findCycle (units : Dependencies) : List String :=
  match units.keys.foldlM (seekCycle units (units.size + 2) []) ∅ with
  | .error cycle => cycle
  | .ok _ => []

end BuildRules
