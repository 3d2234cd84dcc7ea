import BuildRules.Rule.Table

/-!
# Resolutions

A unit is a rule at a platform. A resolution is either the unit of a rule with all the units below
it, or the reason why the rule cannot take part in a build.
-/

namespace BuildRules

/-! ## Units -/

structure UnitKey where
  name : String
  platform : Platform
  deriving DecidableEq

namespace UnitKey

instance : Ord UnitKey := ⟨compareLex (compareOn UnitKey.name) (compareOn UnitKey.platform)⟩

instance : Std.TransOrd UnitKey :=
  inferInstanceAs (Std.TransCmp (compareLex (compareOn UnitKey.name) (compareOn UnitKey.platform)))

instance : Std.LawfulEqOrd UnitKey where
  compare_self {a} := compareLex_eq_eq.2
    ⟨(Std.ReflCmp.compare_self : compare a.name a.name = .eq),
      (Std.ReflCmp.compare_self : compare a.platform a.platform = .eq)⟩
  eq_of_compare {a b} h := by
    obtain ⟨h₁, h₂⟩ := compareLex_eq_eq.1 h
    have e₁ : a.name = b.name := Std.LawfulEqOrd.eq_of_compare h₁
    have e₂ : a.platform = b.platform := Std.LawfulEqOrd.eq_of_compare h₂
    cases a; cases b; cases e₁; cases e₂; rfl

/-- The key as it is told. No two keys are told alike if their platforms hold no blanks. -/
def label (key : UnitKey) : String := key.name ++ " (" ++ key.platform.text ++ ")"

end UnitKey

structure BuildUnit where
  key : UnitKey
  kind : TargetKind
  features : NameSet
  compilerFlags : List String
  deps : List UnitKey
  /-- What the build scripts among the dependencies hand on. -/
  scriptEnv : Environment
  /-- The names under which renamed dependencies are imported. -/
  aliases : Environment
  deriving DecidableEq

/-! ## Reasons -/

/-- Why a target does not take part on a platform. -/
inductive Reason
  /-- The target's own constraint map says so. -/
  | condition (target : String) (platform : Platform) (viaFallback : Bool)
  /-- A dependency does not take part. -/
  | dependency (target : String) (platform : Platform) (reason : Reason)
  deriving DecidableEq

namespace Reason

def target : Reason → String
  | condition target _ _ | dependency target _ _ => target

def platform : Reason → Platform
  | condition _ platform _ | dependency _ platform _ => platform

def isDirect : Reason → Bool
  | condition .. => true
  | dependency .. => false

/-- The reason at the end of the chain, where a target's own constraint map decided. -/
def root : Reason → Reason
  | condition target platform viaFallback => condition target platform viaFallback
  | dependency _ _ reason => reason.root

def message : Reason → String
  | condition target platform viaFallback =>
    target ++ " is incompatible with " ++ platform.text ++ " (matched "
      ++ (if viaFallback then defaultCondition else platform.text) ++ ")"
  | dependency target _ reason => target ++ " -> " ++ reason.message

end Reason

/-! ## Resolved targets -/

structure Resolved where
  rule : Rule
  unit : BuildUnit
  /-- The units below, each after those that it depends on. -/
  closure : List BuildUnit
  deriving DecidableEq

inductive Resolution
  | compatible (resolved : Resolved)
  | incompatible (reason : Reason)
  deriving DecidableEq

namespace Resolved

def name (r : Resolved) : String := r.rule.name

def platform (r : Resolved) : Platform := r.unit.key.platform

def dependsOn (r : Resolved) (name : String) : Bool :=
  r.closure.any fun unit => unit.key.name = name

def closureUnit? (r : Resolved) (key : UnitKey) : Option BuildUnit :=
  r.closure.find? fun unit => unit.key = key

def closureNames (r : Resolved) : List String := r.closure.map (·.key.name)

/-- The graph of the closure and the target itself, by the labels of the units. -/
def graph (r : Resolved) : BuildGraph :=
  (r.closure ++ [r.unit]).foldl
    (fun g unit => g.add unit.key.label (unit.deps.map UnitKey.label)) .empty

/-- The labels of the units in groups that can be built side by side. -/
def groups (r : Resolved) : Except RuleError (List (List String)) := do
  r.graph.validate
  r.graph.groups

end Resolved

end BuildRules
