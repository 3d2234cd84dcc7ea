import BuildRules.Graph.Cycle
import BuildRules.Rule.Error

/-!
# Build graphs

Units with the units they depend on, the order in which they can be built, and the groups that can
be built side by side. Both schedules take units in name order where their dependencies leave a
choice.
-/

namespace BuildRules

structure BuildGraph where
  units : Dependencies

namespace BuildGraph

def empty : BuildGraph := ⟨∅⟩

instance : Inhabited BuildGraph := ⟨empty⟩

/-- The graph with a unit, in place of any unit of that name. -/
def add (g : BuildGraph) (id : String) (dependencies : List String) : BuildGraph :=
  ⟨g.units.insert id dependencies⟩

def get? (g : BuildGraph) (id : String) : Option (List String) := g.units.get? id

def size (g : BuildGraph) : Nat := g.units.size

/-- The first dependency of a unit that is no unit itself. -/
def undefined? (g : BuildGraph) : Option (String × String) :=
  g.units.toList.findSome? fun (id, dependencies) =>
    (dependencies.find? fun d => !g.units.contains d).map fun d => (id, d)

/-- Refuses a graph with a dependency on something that is no unit. -/
def validate (g : BuildGraph) : Except RuleError Unit :=
  match g.undefined? with
  | some (id, dependency) => .error (.undefinedDependency id dependency)
  | none => .ok ()

/-! ## Build order -/

/-- A unit with the number of its dependencies that are still to be built. -/
structure Waiting where
  id : String
  dependencies : List String
  missing : Nat
  deriving DecidableEq

namespace Waiting

/-- How often the unit depends on `built`. -/
def edges (w : Waiting) (built : String) : Nat := w.dependencies.count built

/-- The unit once `built` is built. -/
def release (w : Waiting) (built : String) : Waiting :=
  { w with missing := w.missing - w.edges built }

/-- Whether the unit waits for `built` and for nothing else. -/
def isReleased (w : Waiting) (built : String) : Bool :=
  0 < w.edges built && w.missing == w.edges built

end Waiting

/-- Builds the first unit of the queue and queues those it releases, at most `n` times. -/
def drain : (n : Nat) → List Waiting → List String → List String
  | 0, _, _ => []
  | _, _, [] => []
  | n + 1, waiting, id :: queue =>
    id :: drain n (waiting.map (·.release id))
      (queue ++ (waiting.filter (·.isReleased id)).map Waiting.id)

def waitingAtFirst (g : BuildGraph) : List Waiting :=
  g.units.toList.map fun (id, dependencies) =>
    { id, dependencies, missing := dependencies.length }

def readyAtFirst (g : BuildGraph) : List String :=
  (g.waitingAtFirst.filter (·.missing == 0)).map Waiting.id

/-- Every unit after its dependencies. Each unit is built at most once. -/
def order (g : BuildGraph) : Except RuleError (List String) :=
  let built := drain g.size g.waitingAtFirst g.readyAtFirst
  -- what is on a cycle, or waits for something that is no unit, is never released
  if built.length = g.size then .ok built else .error (.cycle (findCycle g.units))

/-! ## Build groups -/

/-- The entries without those in a group, and without the dependencies on them. -/
def strike (group : List String) (left : List (String × List String)) :
    List (String × List String) :=
  (left.filter fun e => e.1 ∉ group).map fun (id, dependencies) =>
    (id, dependencies.filter (· ∉ group))

/-- Groups of the units that are left, each of them as large as those before it allow, at most `n`
groups. What is left of the dependencies of a unit are those not in an earlier group. -/
def groupsFrom : (n : Nat) → List (String × List String) → List (List String)
  | 0, _ => []
  | n + 1, left =>
    match (left.filter (·.2.isEmpty)).map (·.1) with
    | [] => []
    | group => group :: groupsFrom n (strike group left)

/-- The units in groups that depend only on earlier groups. No group is empty, so there are at most
as many as units. -/
def groups (g : BuildGraph) : Except RuleError (List (List String)) :=
  let groups := groupsFrom g.size g.units.toList
  if groups.flatten.length = g.size then .ok groups else .error (.cycle (findCycle g.units))

end BuildGraph

end BuildRules
