import BuildRules.Resolution

/-!
# Walking the dependencies of a rule

One walk visits the units below a rule, depth first and each unit once, and says of each whether it
is compatible. Features that a unit asks of its dependencies are written down for the next walk; the
features asked for in earlier walks are given.
-/

namespace BuildRules

/-- The features that are asked of units by the units that depend on them. -/
abbrev Requests := SortedMap UnitKey NameSet

namespace Requests

def add (requests : Requests) (key : UnitKey) (features : NameSet) : Requests :=
  if features.isEmpty then requests
  else requests.insert key (requests.getD key ∅ ∪ features)

/-- All requests of both. -/
def merge (r s : Requests) : Requests := s.toList.foldl (fun r entry => r.add entry.1 entry.2) r

end Requests

/-- What a walk is made with. -/
structure Walk.Setting where
  table : RuleTable
  extraFlags : List String
  host : Platform
  /-- The requests of the walks before. -/
  requested : Requests

/-- What a walk finds out about a unit. -/
inductive Walk.Outcome
  | compatible (unit : BuildUnit)
  | incompatible (reason : Reason)
  deriving DecidableEq

/-- Why a walk stops early. -/
inductive Walk.Stop
  | refused (error : RuleError)
  /-- The depth granted was not enough. -/
  | exhausted
  deriving DecidableEq

/-- How far a walk has come. -/
structure Walk where
  /-- The requests of this walk. -/
  demanded : Requests := ∅
  /-- The units visited to the end. -/
  done : SortedMap UnitKey Walk.Outcome := ∅
  /-- The compatible ones, in the order in which they were done. -/
  order : List UnitKey := []

/-- A dependency and the platform of the side that it is needed on. -/
structure Edge where
  name : String
  platform : Platform
  deriving DecidableEq

namespace Walk

/-! ## Edges -/

namespace Setting

variable (s : Setting)

def lookup (target : Target) (dependency : String) : Except RuleError Rule :=
  match s.table.get? dependency with
  | some rule => .ok rule
  | none => .error (.undefinedDependency target.name dependency)

/-- The features of a target, with those asked for by the units that depend on it. -/
def features (target : Target) (platform : Platform) : FeatureSelection :=
  target.featureMap.flatten (target.features ∪ s.requested.getD ⟨target.name, platform⟩ ∅)

/-- The optional dependencies that take part. All of them must be in the table. -/
def activeOptionalDeps (target : Target) (features : FeatureSelection) :
    Except RuleError (List String) :=
  match target.optionalDeps.find? fun dependency => (s.table.get? dependency).isNone with
  | some dependency => .error (.undefinedDependency target.name dependency)
  | none => .ok (target.optionalDeps.filter fun d => target.localName d ∈ features.activated)

/-- The side on which a rule needs its dependencies; a build script runs on the host, and so does
everything it depends on. -/
def dependencySide (rule : Rule) (platform : Platform) : Platform :=
  if rule.isScript then s.host else platform

/-- The edges of a rule at a platform, in the order in which they are walked. -/
def edges (rule : Rule) (platform : Platform) (labels : List String) (features : FeatureSelection) :
    Except RuleError (List Edge) := do
  let target := rule.common
  let active ← s.activeOptionalDeps target features
  return (target.deps ++ labels ++ active).map (⟨·, s.dependencySide rule platform⟩)
    ++ target.procMacroDeps.map (⟨·, s.host⟩)

/-- The unit at the end of an edge; what runs while others are built is built for the host. -/
def unitOf (edge : Edge) (rule : Rule) : UnitKey :=
  ⟨edge.name, if rule.common.kind.runsOnHost then s.host else edge.platform⟩

end Setting

/-! ## What the edges of a unit bring in -/

structure Gathered where
  deps : List UnitKey := []
  aliases : Environment := ∅
  scriptEnv : Environment := ∅
  /-- The first dependency found incompatible. -/
  blocked : Option Reason := none

/-- Takes in the dependency at the end of an edge. -/
def Gathered.add (g : Gathered) (target : Target) (context : ScriptContext) (edge : Edge)
    (rule : Rule) : Outcome → Gathered
  | .incompatible reason => { g with blocked := g.blocked.or (some reason) }
  | .compatible unit =>
    { g with
      deps := if unit.key ∈ g.deps then g.deps else g.deps ++ [unit.key]
      aliases :=
        match target.aliases.get? edge.name with
        | some aliasName => g.aliases.insert edge.name aliasName
        | none => g.aliases
      scriptEnv :=
        match rule.script? with
        | some script => g.scriptEnv.override (script.environment context)
        | none => g.scriptEnv }

/-! ## Visiting -/

/-- A visit to a rule at a platform. -/
abbrev Visit := Rule → Platform → Walk → Except Stop (Outcome × Walk)

def refuse {α : Type} : Except RuleError α → Except Stop α
  | .ok a => .ok a
  | .error e => .error (.refused e)

section

variable (s : Setting)

/-- Follows one edge of a target: notes what the target asks of the dependency, then visits it. -/
def followEdge (visit : Visit) (target : Target) (platform : Platform) (features : FeatureSelection)
    (state : Gathered × Walk) (edge : Edge) : Except Stop (Gathered × Walk) := do
  let (gathered, walk) := state
  let rule ← refuse (s.lookup target edge.name)
  let key := s.unitOf edge rule
  -- features are asked for under the name that the target itself uses
  let asked := features.requestsOn (target.localName edge.name)
  let (outcome, walk) ←
    visit rule key.platform { walk with demanded := walk.demanded.add key asked }
  let context : ScriptContext :=
    { package := target.name, version := target.version, target := platform, host := s.host,
      features := features.enabled }
  return (gathered.add target context edge rule outcome, walk)

/-- What the edges of a unit come to: the unit, or the first dependency that is incompatible. -/
def conclude (target : Target) (platform : Platform) (features : FeatureSelection)
    (gathered : Gathered) : Outcome :=
  match gathered.blocked with
  | some reason => .incompatible (.dependency target.name platform reason)
  | none =>
    .compatible
      { key := ⟨target.name, platform⟩
        kind := target.kind
        features := features.enabled
        compilerFlags := target.compilerFlags ++ s.extraFlags
        deps := gathered.deps
        scriptEnv := gathered.scriptEnv
        aliases := gathered.aliases }

/-- Visits what a rule needs at a platform. All edges are followed even when one of them is found
incompatible, so that a mistake further down is still reported. -/
def visitDependencies (visit : Visit) : Visit := fun rule platform walk => do
  let target := rule.common
  match target.select platform with
  | none => .error (.refused (.noMatchingCondition target.name platform.text))
  | some (.incompatible viaFallback) =>
    return (.incompatible (.condition target.name platform viaFallback), walk)
  | some (.compatible labels) =>
    let features := s.features target platform
    let edges ← refuse (s.edges rule platform labels features)
    let (gathered, walk) ← edges.foldlM (followEdge s visit target platform features) ({}, walk)
    return (conclude s target platform features gathered, walk)

/-- The walk with one more unit done. -/
def finish (walk : Walk) (key : UnitKey) (outcome : Outcome) : Walk :=
  { walk with
    done := walk.done.insert key outcome
    order :=
      match outcome with
      | .compatible _ => walk.order ++ [key]
      | .incompatible _ => walk.order }

/-- Visits a rule at a platform, coming from the units of `path`; `below` visits from a longer path.
A unit that is done is not visited again, and a unit on the path closes a cycle. -/
def visitFrom (below : List UnitKey → Visit) (path : List UnitKey) : Visit :=
  fun rule platform walk =>
    let key : UnitKey := ⟨rule.name, platform⟩
    match walk.done.get? key with
    | some outcome => .ok (outcome, walk)
    | none =>
      -- a unit is done only once it has left the path
      if key ∈ path then .error (.refused (.cycle ((closePath path key).map UnitKey.name)))
      else do
        let (outcome, walk) ← visitDependencies s (below (key :: path)) rule platform walk
        return (outcome, walk.finish key outcome)

/-- Visits a rule at a platform, at most so many units deep. -/
def visit : (depth : Nat) → (path : List UnitKey) → Visit
  | 0, _ => fun _ _ _ => .error .exhausted
  | depth + 1, path => visitFrom s (visit depth) path

end

/-- The compatible units that are done, but for one, in the order in which they were done. -/
def unitsBut (walk : Walk) (key : UnitKey) : List BuildUnit :=
  (walk.order.filter (· ≠ key)).filterMap fun k =>
    match walk.done.get? k with
    | some (.compatible unit) => some unit
    | _ => none

/-- What a walk from a rule says about the rule. -/
def resolution (walk : Walk) (rule : Rule) : Outcome → Resolution
  | .incompatible reason => .incompatible reason
  | .compatible unit => .compatible { rule, unit, closure := walk.unitsBut unit.key }

end Walk

end BuildRules
