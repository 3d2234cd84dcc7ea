import BuildRules.Resolution.Resolver

/-!
# Plans

The verdict on every rule of a table for one platform, but for the rules that are built only when
they are asked for by name. Verdicts are independent of each other.
-/

namespace BuildRules

inductive Verdict
  | resolved (resolved : Resolved)
  | incompatible (reason : Reason)
  | failed (error : RuleError)
  deriving DecidableEq

namespace Verdict

def ofResult : Except RuleError Resolution → Verdict
  | .ok (.compatible r) => resolved r
  | .ok (.incompatible reason) => incompatible reason
  | .error e => failed e

def status : Verdict → String
  | resolved _ => "resolved"
  | incompatible _ => "incompatible"
  | failed _ => "failed"

def resolved? : Verdict → Option Resolved
  | resolved r => some r
  | _ => none

def reason? : Verdict → Option Reason
  | incompatible reason => some reason
  | _ => none

def error? : Verdict → Option RuleError
  | failed e => some e
  | _ => none

theorem error?_ofResult_eq_some_iff {result : Except RuleError Resolution} {e : RuleError} :
    (ofResult result).error? = some e ↔ result = .error e := by
  unfold ofResult
  split <;> simp [error?]

end Verdict

structure Plan where
  platform : Platform
  verdicts : SortedMap String Verdict
  /-- The rules that are built only when they are asked for by name. -/
  skipped : List String

namespace Plan

def resolved (plan : Plan) : List Resolved := plan.verdicts.values.filterMap Verdict.resolved?

def incompatible (plan : Plan) : List Reason := plan.verdicts.values.filterMap Verdict.reason?

def failures (plan : Plan) : List (String × RuleError) :=
  plan.verdicts.toList.filterMap fun (name, verdict) => verdict.error?.map fun e => (name, e)

def isSuccess (plan : Plan) : Bool := plan.failures.isEmpty

/-- One line on the rules that do not take part, if there are any. -/
def skippingMessage? (plan : Plan) : Option String :=
  match plan.incompatible.map Reason.target with
  | [] => none
  | names =>
    some ("Skipping " ++ toString names.length ++ " target(s) incompatible with "
      ++ plan.platform.text ++ ": " ++ ", ".intercalate names)

def summary (plan : Plan) : String :=
  plan.platform.text ++ ": " ++ toString plan.resolved.length ++ " resolved, "
    ++ toString plan.incompatible.length ++ " incompatible, "
    ++ toString plan.failures.length ++ " failed, "
    ++ toString plan.skipped.length ++ " skipped"

end Plan

/-- The plan of a resolver's table for a platform. -/
def Resolver.plan (r : Resolver) (platform : Platform) : Plan where
  platform := platform
  verdicts := (r.table.rules.filter fun entry => !entry.2.common.isManual).mapValues fun rule =>
    Verdict.ofResult (r.resolveRule rule platform)
  skipped := (r.table.rules.filter fun entry => entry.2.common.isManual).keys

namespace Resolver

variable {r : Resolver} {platform : Platform} {name : String}

/-- A plan has a verdict on every rule that is not built by name only, and no other. -/
theorem mem_verdicts_plan_iff {verdict : Verdict} :
    (name, verdict) ∈ (r.plan platform).verdicts.toList ↔
      ∃ rule, r.table.get? name = some rule ∧ rule.common.isManual = false ∧
        verdict = Verdict.ofResult (r.resolveRule rule platform) := by
  unfold plan SortedMap.mapValues SortedMap.filter
  simp only [List.mem_map, List.mem_filter, Prod.exists, Prod.mk.injEq, SortedMap.mem_toList_iff,
    Bool.not_eq_true', RuleTable.get?]
  constructor
  · rintro ⟨name', rule, ⟨hget, hmanual⟩, rfl, rfl⟩
    exact ⟨rule, hget, hmanual, rfl⟩
  · rintro ⟨rule, hget, hmanual, rfl⟩
    exact ⟨name, rule, ⟨hget, hmanual⟩, rfl, rfl⟩

/-- The failures of a plan are those of resolving its rules one by one. -/
theorem mem_failures_plan_iff {e : RuleError} :
    (name, e) ∈ (r.plan platform).failures ↔
      ∃ rule, r.table.get? name = some rule ∧ rule.common.isManual = false ∧
        r.resolveRule rule platform = .error e := by
  unfold Plan.failures
  simp only [List.mem_filterMap, Prod.exists, mem_verdicts_plan_iff, Option.map_eq_some_iff,
    Prod.mk.injEq]
  constructor
  · rintro ⟨name', verdict, ⟨rule, hget, hmanual, rfl⟩, e', he, rfl, rfl⟩
    exact ⟨rule, hget, hmanual, Verdict.error?_ofResult_eq_some_iff.1 he⟩
  · rintro ⟨rule, hget, hmanual, he⟩
    exact ⟨name, _, ⟨rule, hget, hmanual, rfl⟩, e, Verdict.error?_ofResult_eq_some_iff.2 he, rfl, rfl⟩

end Resolver

end BuildRules
