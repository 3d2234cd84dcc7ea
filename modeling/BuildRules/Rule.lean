import BuildRules.Rule.Script

/-!
# Rules

A rule is a target or a build script.
-/

namespace BuildRules

inductive Rule
  | target (target : Target)
  | script (script : Script)
  deriving DecidableEq

namespace Rule

/-- What a rule has in common with other rules. -/
def common : Rule → Target
  | target t => t
  | script s => s.target

def name (r : Rule) : String := r.common.name

def script? : Rule → Option Script
  | target _ => none
  | script s => some s

theorem script?_eq_some_iff {r : Rule} {s : Script} : r.script? = some s ↔ r = .script s := by
  cases r <;> simp [script?]

def isScript (r : Rule) : Bool := r.script?.isSome

end Rule

end BuildRules
