import BuildRules.Configuration.Settings
import BuildRules.Resolution.Walk

/-!
# Resolving rules

A resolver decides whether a rule takes part in a build for a platform, and with which units. It
walks the dependencies of the rule again as long as a walk asks for features that the walk before
did not know of.
-/

namespace BuildRules

structure Resolver where
  table : RuleTable
  settings : Settings
  /-- The host that is configured; without one the host is the platform built for. -/
  host? : Option Platform

namespace Resolver

/-- A resolver for a table. A configured host must be a platform with host tools. -/
def ofSettings (table : RuleTable) (settings : Settings) : Except RuleError Resolver :=
  match settings.hostPlatform with
  | none => .ok { table, settings, host? := none }
  | some id => do
    let host ← Platform.ofName id
    if host.hasHostTools then return { table, settings, host? := some host }
    else .error (.noHostTools host.text)

def hostFor (r : Resolver) (platform : Platform) : Platform := r.host?.getD platform

/-- What a walk is made with, after walks that made the given requests. -/
def setting (r : Resolver) (platform : Platform) (requested : Requests) : Walk.Setting where
  table := r.table
  extraFlags := r.settings.extraFlags
  host := r.hostFor platform
  requested := requested

/-! ## Bounds -/

/-- A path holds no unit twice, its names are those of the table and of the rule, and its platforms
are the one built for and the host. One step more finds the unit on the path. -/
def depthBound (r : Resolver) : Nat := 2 * (r.table.size + 1) + 1

/-- The number of slashes in the feature entries of a target. What a target asks of a dependency is
what follows one of them. -/
def slashes (t : Target) : Nat :=
  (t.features.toList ++ t.featureMap.values.flatten).foldr
    (fun entry n => entry.toList.count '/' + n) 0

/-- Every walk but the last asks for something new, and there are only so many features to ask of so
many units. -/
def roundBound (r : Resolver) (rule : Rule) : Nat :=
  2 * r.table.size
      * (rule :: r.table.rules.values).foldr (fun rule n => slashes rule.common + n) 0
    + 1

/-! ## Resolving -/

/-- Walks until no walk asks for anything new, at most `rounds` times. -/
def settle (r : Resolver) (rule : Rule) (platform : Platform) :
    (rounds : Nat) → Requests → Except Walk.Stop Resolution
  | 0, _ => .error .exhausted
  | rounds + 1, requested => do
    let s := r.setting platform requested
    let (outcome, walk) ← Walk.visit s r.depthBound [] rule platform {}
    let unified := requested.merge walk.demanded
    -- requests only ever grow, so equal ones mean that nothing new was asked for
    if unified = requested then return walk.resolution rule outcome
    else settle r rule platform rounds unified

/-- Resolves a rule against the table, which need not hold it. The bounds are never reached. -/
def resolveRule (r : Resolver) (rule : Rule) (platform : Platform) : Except RuleError Resolution :=
  match r.settle rule platform (r.roundBound rule) ∅ with
  | .ok resolution => .ok resolution
  | .error (.refused e) => .error e
  | .error .exhausted => .error (.cycle [rule.name])

/-- Resolves a rule of the table. -/
def resolve (r : Resolver) (name : String) (platform : Platform) : Except RuleError Resolution :=
  match r.table.get? name with
  | some rule => r.resolveRule rule platform
  | none => .error (.unknownTarget name)

theorem resolve_of_get? {r : Resolver} {name : String} {rule : Rule}
    (h : r.table.get? name = some rule) (platform : Platform) :
    r.resolve name platform = r.resolveRule rule platform := by
  rw [resolve, h]

end Resolver

end BuildRules
