import BuildRules.Proofs.Except
import BuildRules.Proofs.Rule.Check

/-!
# Adding a rule to a table

A rule is added to a table if it is valid and has a name of its own, and the table is then the same
but for that rule. What a rule is refused with is true of it. Main statement: `insert_meets`.
-/

namespace BuildRules

namespace Target

variable {t : Target} {e : RuleError}

/-- The target has the fault. -/
def HasFault (t : Target) : TargetFault → Prop
  | .unnamed => t.name = ""
  | .noSources => t.srcs = []
  | .noCrateRoot => t.kind.requiresCrateRoot ∧ t.crateRoot = none
  | .badEdition edition => edition = t.edition ∧ edition ∉ editions
  | .strayAlias dependency => dependency ∈ t.aliases.keys ∧ dependency ∉ t.declaredDeps

/-- What an error says about the target that it is found in. -/
def Faults (t : Target) : RuleError → Prop
  | .invalidTarget name fault =>
    name = (if t.name = "" then "<unnamed>" else t.name) ∧ t.HasFault fault
  | .cycle path => path = [t.name, t.name] ∧ t.Lists t.name
  | _ => False

theorem strayAlias?_eq_some {dependency : String} (h : t.strayAlias? = some dependency) :
    t.HasFault (.strayAlias dependency) := by
  unfold strayAlias? at h
  exact ⟨List.mem_of_find?_eq_some h, by simpa using List.find?_some h⟩

/-- A target is refused only with what is true of it. -/
theorem faults_of_validate (h : t.validate = .error e) : t.Faults e := by
  unfold validate at h
  split at h
  · next hname =>
    cases h
    exact ⟨(if_pos hname).symm, hname⟩
  next hname =>
  have htold : t.name = if t.name = "" then "<unnamed>" else t.name := (if_neg hname).symm
  split at h
  · next hsrcs =>
    cases h
    exact ⟨htold, hsrcs⟩
  split at h
  · next hroot =>
    cases h
    exact ⟨htold, hroot⟩
  split at h
  · next hedition =>
    cases h
    exact ⟨htold, rfl, hedition⟩
  split at h
  · next dependency hstray =>
    cases h
    exact ⟨htold, strayAlias?_eq_some hstray⟩
  split at h
  · next hself =>
    cases h
    exact ⟨rfl, mem_dependencyNames_iff.1 hself⟩
  · cases h

end Target

namespace RuleTable

variable {table : RuleTable} {rule : Rule}

theorem insert_meets :
    Meets (table.insert rule)
      (fun table' => rule.common.IsValid ∧ table.get? rule.name = none ∧
        ∀ name, table'.get? name = if name = rule.name then some rule else table.get? name)
      (fun e => rule.common.Faults e ∨
        e = .duplicateTarget rule.name ∧ table.get? rule.name ≠ none) := by
  unfold insert
  split
  · next e hvalidate => exact .inl (Target.faults_of_validate hvalidate)
  · next hvalidate =>
    split
    · next hcontains => exact .inr ⟨rfl, Option.isSome_iff_ne_none.1 hcontains⟩
    · next hcontains =>
      refine ⟨Target.validate_eq_ok_iff.1 hvalidate, ?_, fun name => SortedMap.get?_insert _ _ _ _⟩
      exact Option.not_isSome_iff_eq_none.1 hcontains

end RuleTable

end BuildRules
