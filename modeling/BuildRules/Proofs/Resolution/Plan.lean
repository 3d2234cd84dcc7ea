import BuildRules.Proofs.Resolution.Closure
import BuildRules.Proofs.Resolution.Reason
import BuildRules.Resolution.Plan

/-!
# Plans

A plan parts the names of a table in those that are skipped and those that have a verdict, and each
verdict is what resolving that name alone comes to. The lists that a plan tells are taken from the
verdicts and not from the names, so they rest on what a resolved target and a reason are about.
Main statement: `plan_faithful`.
-/

namespace BuildRules

/-! ## Verdicts -/

namespace Verdict

variable {result : Except RuleError Resolution} {reason : Reason} {res : Resolved}

theorem ofResult_eq_resolved_iff :
    ofResult result = resolved res ↔ result = .ok (.compatible res) := by
  unfold ofResult
  split <;> simp

theorem ofResult_eq_incompatible_iff :
    ofResult result = incompatible reason ↔ result = .ok (.incompatible reason) := by
  unfold ofResult
  split <;> simp

theorem ofResult_eq_failed_iff {e : RuleError} :
    ofResult result = failed e ↔ result = .error e := by
  unfold ofResult
  split <;> simp

/-- A verdict is of one of three kinds. -/
theorem length_kinds (l : List Verdict) :
    (l.filterMap resolved?).length + (l.filterMap reason?).length + (l.filterMap error?).length =
      l.length := by
  induction l with
  | nil => rfl
  | cons verdict l ih =>
    cases verdict <;>
      simp only [resolved?, reason?, error?, List.filterMap_cons, List.length_cons] <;> omega

end Verdict

theorem Reason.head?_chain (reason : Reason) :
    reason.chain.head? = some ⟨reason.target, reason.platform⟩ := by
  cases reason <;> rfl

/-! ## Names -/

namespace RuleTable

variable {table : RuleTable}

/-- Whether the rule of a name is built only when it is asked for by name. -/
def isManual (table : RuleTable) (name : String) : Bool :=
  (table.get? name).any fun rule => rule.common.isManual

theorem get?_of_mem {entry : String × Rule} (h : entry ∈ table.rules.toList) :
    table.get? entry.1 = some entry.2 :=
  SortedMap.mem_toList_iff.1 h

theorem filter_names (p : String → Bool) (q : Rule → Bool)
    (h : ∀ name rule, table.get? name = some rule → p name = q rule) :
    table.names.filter p = (table.rules.filter fun entry => q entry.2).keys := by
  simp only [names, SortedMap.keys, SortedMap.filter, List.filter_map]
  congr 1
  exact List.filter_congr fun entry hentry => h _ _ (get?_of_mem hentry)

end RuleTable

namespace Resolver

variable {r : Resolver} {rule : Rule} {platform : Platform} {name : String}

/-! ## What a resolution is about -/

/-- The reason why a rule is incompatible begins at the rule. -/
theorem target_of_incompatible {reason : Reason}
    (h : r.resolveRule rule platform = .ok (.incompatible reason)) : reason.target = rule.name := by
  obtain ⟨requested, outcome, walk, hlast, hreason⟩ := exists_lastWalk h
  cases outcome with
  | compatible unit => cases hreason
  | incompatible reason' =>
    cases hreason
    have hhead := (hlast.explains hlast.done).head?_chain
    rw [Reason.head?_chain, Option.some.injEq] at hhead
    exact congrArg UnitKey.name hhead

/-- What a resolved rule depends on, whatever its tags, is in the closure. -/
theorem mem_closureNames {res : Resolved} (h : r.resolveRule rule platform = .ok (.compatible res))
    (hname : name ∈ rule.common.deps ++ rule.common.procMacroDeps) : name ∈ res.closureNames := by
  obtain ⟨requested, walk, hread⟩ := exists_isRead h
  obtain ⟨root, hroot, hsettled⟩ := hread.last.sound.settled _ _ hread.last.done
  obtain rfl : rule = root := Option.some.inj ((UnitGraph.rule?_rootKey _).symm.trans hroot)
  obtain ⟨labels, ends, hends, -, -⟩ := hsettled.eq_unitFrom
  have hdeclared : name ∈ rule.common.declaredDeps ++ labels := by
    simp only [Target.declaredDeps, List.mem_append] at hname ⊢
    tauto
  obtain ⟨next, hnext⟩ := Option.ne_none_iff_exists'.1 (hends.get?_ne_none hdeclared)
  have hclosure : ∀ {edge}, edge.name = name →
      (r.graph rule platform).Needs rule platform labels (rule.common.featuresFor ∅) edge →
      name ∈ res.closureNames := by
    rintro edge rfl hneeds
    have hlink := UnitGraph.Link.intro hroot hends.select hneeds hnext
    have hkey := hread.mem_keys_iff.2 (.single ⟨∅, _, .root, hlink⟩)
    obtain ⟨unit, hunit, heq⟩ := List.mem_map.1 hkey
    exact List.mem_map.2 ⟨unit, hunit, congrArg UnitKey.name heq⟩
  rcases List.mem_append.1 hname with hdep | hprocMacro
  · exact hclosure rfl (.dep hdep)
  · exact hclosure rfl (.procMacro hprocMacro)

/-! ## The two parts of a plan -/

theorem skipped_plan : (r.plan platform).skipped = r.table.names.filter r.table.isManual := by
  refine (RuleTable.filter_names _ (fun rule => rule.common.isManual) fun name rule hget => ?_).symm
  simp [RuleTable.isManual, hget]

theorem keys_plan :
    (r.plan platform).verdicts.keys = r.table.names.filter fun name => !r.table.isManual name := by
  refine (SortedMap.keys_mapValues _ _).trans (Eq.symm ?_)
  refine RuleTable.filter_names _ (fun rule => !rule.common.isManual) fun name rule hget => ?_
  simp [RuleTable.isManual, hget]

theorem mem_keys_plan_iff :
    name ∈ (r.plan platform).verdicts.keys ↔
      ∃ rule, r.table.get? name = some rule ∧ rule.common.isManual = false := by
  rw [keys_plan, List.mem_filter, RuleTable.mem_names_iff, RuleTable.isManual]
  cases r.table.get? name <;> simp

/-- A verdict is what resolving its name comes to. -/
theorem get?_plan (hname : name ∈ (r.plan platform).verdicts.keys) :
    (r.plan platform).verdicts.get? name = some (.ofResult (r.resolve name platform)) := by
  obtain ⟨rule, hget, hmanual⟩ := mem_keys_plan_iff.1 hname
  rw [← SortedMap.mem_toList_iff, mem_verdicts_plan_iff, resolve_of_get? hget]
  exact ⟨rule, hget, hmanual, rfl⟩

/-- The failures of a plan are those of its names. -/
theorem mem_failures_iff {e : RuleError} :
    (name, e) ∈ (r.plan platform).failures ↔
      name ∈ (r.plan platform).verdicts.keys ∧ r.resolve name platform = .error e := by
  rw [mem_failures_plan_iff, mem_keys_plan_iff]
  constructor
  · rintro ⟨rule, hget, hmanual, he⟩
    exact ⟨⟨rule, hget, hmanual⟩, (resolve_of_get? hget platform).trans he⟩
  · rintro ⟨⟨rule, hget, hmanual⟩, he⟩
    exact ⟨rule, hget, hmanual, (resolve_of_get? hget platform).symm.trans he⟩

/-! ## What a plan tells -/

section

variable (r platform)

def isIncompatible (name : String) : Bool :=
  match r.resolve name platform with
  | .ok (.incompatible _) => true
  | _ => false

/-- The names with a verdict that are incompatible when they are resolved alone, in order. -/
def incompatibleNames : List String :=
  r.table.names.filter fun name => !r.table.isManual name && r.isIncompatible platform name

end

/-- The reasons of a plan begin at the names that are incompatible. -/
theorem map_target_incompatible :
    (r.plan platform).incompatible.map Reason.target = r.incompatibleNames platform := by
  -- both lists go through the entries of the table
  have hnames : r.incompatibleNames platform = r.table.rules.toList.filterMap fun entry =>
      entry.1 |> Option.guard fun name =>
        !r.table.isManual name && r.isIncompatible platform name := by
    rw [incompatibleNames, ← List.filterMap_eq_filter, RuleTable.names, SortedMap.keys,
      List.filterMap_map]
    rfl
  rw [hnames]
  simp only [Plan.incompatible, plan, SortedMap.values, SortedMap.mapValues, SortedMap.filter,
    List.map_map, List.filterMap_map, List.map_filterMap, List.filterMap_filter]
  refine List.filterMap_congr fun entry hentry => ?_
  have hget := RuleTable.get?_of_mem hentry
  have hmanual : r.table.isManual entry.1 = entry.2.common.isManual := by
    simp [RuleTable.isManual, hget]
  simp only [Option.guard, Function.comp_apply, isIncompatible, resolve_of_get? hget, hmanual]
  cases entry.2.common.isManual with
  | true => rfl
  | false =>
    cases hresult : r.resolveRule entry.2 platform with
    | error e => rfl
    | ok resolution =>
      cases resolution with
      | compatible res => rfl
      | incompatible reason =>
        have htarget : reason.target = entry.1 :=
          (target_of_incompatible hresult).trans (RuleTable.name_of_get? hget)
        simp [Verdict.ofResult, Verdict.reason?, htarget]

/-- A plan tells of every name of the table what resolving it alone comes to, but for the names that
are skipped. -/
structure IsFaithful (r : Resolver) (platform : Platform) (plan : Plan) : Prop where
  /-- Every name, and nothing else, is in exactly one of the two parts. -/
  partition : ∀ name, name ∈ r.table.names ↔ Xor (name ∈ plan.verdicts.keys) (name ∈ plan.skipped)
  skipped : plan.skipped = r.table.names.filter r.table.isManual
  resolved : ∀ name ∈ plan.verdicts.keys, ∀ res,
    plan.verdicts.get? name = some (.resolved res) ↔ r.resolve name platform = .ok (.compatible res)
  incompatible : ∀ name ∈ plan.verdicts.keys, ∀ reason,
    plan.verdicts.get? name = some (.incompatible reason) ↔
      r.resolve name platform = .ok (.incompatible reason)
  failed : ∀ name ∈ plan.verdicts.keys, ∀ e,
    plan.verdicts.get? name = some (.failed e) ↔ r.resolve name platform = .error e
  /-- What is skipped is not left out where it is needed. -/
  needed : ∀ name rule res, r.table.get? name = some rule →
    plan.verdicts.get? name = some (.resolved res) →
    ∀ dependency ∈ rule.common.deps ++ rule.common.procMacroDeps, dependency ∈ res.closureNames
  count : plan.resolved.length + plan.incompatible.length + plan.failures.length +
    plan.skipped.length = r.table.size
  success : plan.isSuccess ↔
    ∀ name ∈ plan.verdicts.keys, ∃ resolution, r.resolve name platform = .ok resolution
  message : plan.skippingMessage? =
    if r.incompatibleNames platform = [] then none
    else some ("Skipping " ++ toString (r.incompatibleNames platform).length
      ++ " target(s) incompatible with " ++ platform.text ++ ": "
      ++ ", ".intercalate (r.incompatibleNames platform))

theorem count_plan :
    (r.plan platform).resolved.length + (r.plan platform).incompatible.length +
      (r.plan platform).failures.length + (r.plan platform).skipped.length = r.table.size := by
  have herrors : (r.plan platform).failures.map Prod.snd =
      (r.plan platform).verdicts.values.filterMap Verdict.error? := by
    simp [Plan.failures, SortedMap.values, List.map_filterMap, List.filterMap_map,
      Function.comp_def]
  have hfailures := congrArg List.length herrors
  rw [List.length_map] at hfailures
  have hkinds := Verdict.length_kinds (r.plan platform).verdicts.values
  have hvalues : (r.plan platform).verdicts.values.length =
      (r.plan platform).verdicts.keys.length := by
    simp [SortedMap.values, SortedMap.keys]
  have hparts := List.length_eq_length_filter_add (l := r.table.names) r.table.isManual
  rw [hfailures, Plan.resolved, Plan.incompatible, hkinds, hvalues, keys_plan, skipped_plan,
    ← RuleTable.length_names, hparts, Nat.add_comm]

theorem isSuccess_plan_iff :
    (r.plan platform).isSuccess ↔ ∀ name ∈ (r.plan platform).verdicts.keys,
      ∃ resolution, r.resolve name platform = .ok resolution := by
  have hresult : ∀ name, (∃ resolution, r.resolve name platform = .ok resolution) ↔
      ∀ e, r.resolve name platform ≠ .error e := fun name => by
    cases r.resolve name platform <;> simp
  simp only [Plan.isSuccess, List.isEmpty_iff, List.eq_nil_iff_forall_not_mem, Prod.forall,
    mem_failures_iff, not_and, hresult]
  exact ⟨fun h name hname e => h name e hname, fun h name e hname => h name hname e⟩

/-- A plan is faithful to its table, whatever the settings and the platform. -/
theorem plan_faithful (r : Resolver) (platform : Platform) :
    r.IsFaithful platform (r.plan platform) where
  partition name := by
    rw [keys_plan, skipped_plan]
    cases hmanual : r.table.isManual name <;> simp [Xor, hmanual]
  skipped := skipped_plan
  resolved name hname res := by
    rw [get?_plan hname, Option.some.injEq, Verdict.ofResult_eq_resolved_iff]
  incompatible name hname reason := by
    rw [get?_plan hname, Option.some.injEq, Verdict.ofResult_eq_incompatible_iff]
  failed name hname e := by
    rw [get?_plan hname, Option.some.injEq, Verdict.ofResult_eq_failed_iff]
  needed name rule res hget hverdict := by
    obtain ⟨rule', hget', -, heq⟩ := mem_verdicts_plan_iff.1 (SortedMap.mem_toList_iff.2 hverdict)
    obtain rfl : rule = rule' := Option.some.inj (hget.symm.trans hget')
    exact fun dependency => mem_closureNames (Verdict.ofResult_eq_resolved_iff.1 heq.symm)
  count := count_plan
  success := isSuccess_plan_iff
  message := by
    rw [Plan.skippingMessage?, map_target_incompatible]
    cases r.incompatibleNames platform <;> rfl

end Resolver

end BuildRules
