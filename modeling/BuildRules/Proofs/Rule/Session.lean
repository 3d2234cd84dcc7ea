import BuildRules.Proofs.Rule.Insertion

/-!
# Sessions

A table is built by adding one rule after the other, whether or not rules were refused in between.
A refused rule leaves nothing behind, and of the valid rules of one name the table holds the first.
Main statement: `session_exact`.
-/

namespace BuildRules

namespace RuleTable

variable {table table' : RuleTable} {rule : Rule} {e : RuleError}

/-! ## One rule added in place -/

/-- Adds a rule to the table at hand. What has been done to the table when a rule is refused stays
done. Both checks come before the table is touched, so that nothing has been done to it by then. -/
def enter (rule : Rule) : ExceptT RuleError (StateM RuleTable) Unit := do
  let table ← get
  set (← table.insert rule)

/-- What adding a rule to a table comes to, and the table after it. -/
def afterEntry (table : RuleTable) (rule : Rule) : Except RuleError Unit × RuleTable :=
  (enter rule).run.run table

theorem afterEntry_eq : table.afterEntry rule =
    match table.insert rule with
    | .ok table' => (.ok (), table')
    | .error e => (.error e, table) := by
  unfold afterEntry enter
  show ((do set (← table.insert rule)) :
    ExceptT RuleError (StateM RuleTable) Unit).run.run table = _
  cases table.insert rule <;> rfl

/-- A refused rule leaves the table as it was. -/
theorem eq_of_afterEntry_eq_error (h : table.afterEntry rule = (.error e, table')) :
    table' = table := by
  simp only [afterEntry_eq] at h
  split at h
  · cases h
  · cases h
    rfl

theorem exists_insert_iff (table : RuleTable) (rule : Rule) :
    (∃ table', table.insert rule = .ok table') ↔
      rule.common.validate = .ok () ∧ table.get? rule.name = none := by
  unfold insert
  split
  · next e hinvalid => simp [hinvalid]
  · next hvalid =>
    split
    · next htaken =>
      have hget : table.get? rule.name ≠ none := Option.isSome_iff_ne_none.1 htaken
      simp [hvalid, hget]
    · next hfree =>
      have hget : table.get? rule.name = none := Option.not_isSome_iff_eq_none.1 hfree
      simp [hvalid, hget]

/-- A rule is refused if it is not valid or its name is taken. -/
theorem exists_afterEntry_eq_error_iff : (∃ e, (table.afterEntry rule).1 = .error e) ↔
    rule.common.validate ≠ .ok () ∨ table.get? rule.name ≠ none := by
  have hmade := exists_insert_iff table rule
  simp only [afterEntry_eq]
  cases hinsert : table.insert rule with
  | ok table' =>
    have hboth := hmade.1 ⟨table', hinsert⟩
    simp [hboth]
  | error e =>
    simp only [hinsert, reduceCtorEq, exists_false, false_iff] at hmade
    simpa using Classical.not_and_iff_not_or_not.1 hmade

/-- A table holds what it held before a rule was added and, where it held nothing, the rule, if that
is valid. -/
theorem get?_afterEntry (name : String) : (table.afterEntry rule).2.get? name =
    (table.get? name).or
      (if rule.name = name ∧ rule.common.validate = .ok () then some rule else none) := by
  have hmeets : Meets (table.insert rule) _ _ := insert_meets
  have hmade := exists_insert_iff table rule
  simp only [afterEntry_eq]
  cases hinsert : table.insert rule with
  | ok table' =>
    rw [hinsert] at hmeets
    have hvalid := (hmade.1 ⟨table', hinsert⟩).1
    by_cases hname : rule.name = name
    · subst hname
      simp [hmeets.2.1, hmeets.2.2, hvalid]
    · simp [hmeets.2.2, hname, Ne.symm hname]
  | error e =>
    simp only [hinsert, reduceCtorEq, exists_false, false_iff] at hmade
    by_cases hfits : rule.name = name ∧ rule.common.validate = .ok ()
    · -- a valid rule is refused only when its name is taken
      have htaken : table.get? name ≠ none := fun hfree => hmade ⟨hfits.2, hfits.1 ▸ hfree⟩
      cases hget : table.get? name with
      | none => exact absurd hget htaken
      | some held => rfl
    · simp [hfits]

/-! ## Many rules -/

/-- Adds rules one after the other and tells what each of them came to. -/
def session (rules : List Rule) : StateM RuleTable (List (Except RuleError Unit)) :=
  rules.mapM fun rule => (enter rule).run

/-- The table after a session that started with no rules. -/
def afterSession (rules : List Rule) : RuleTable := ((session rules).run empty).2

theorem run_session_cons (rules : List Rule) :
    ((session (rule :: rules)).run table).2 =
      ((session rules).run (table.afterEntry rule).2).2 := by
  simp only [session, List.mapM_cons]
  rfl

theorem get?_run_session (rules : List Rule) (name : String) :
    ((session rules).run table).2.get? name =
      (table.get? name).or
        (rules.find? fun rule => rule.name = name ∧ rule.common.validate = .ok ()) := by
  induction rules generalizing table with
  | nil => exact (Option.or_none).symm
  | cons rule rules ih =>
    simp only [run_session_cons, ih, get?_afterEntry, Option.or_assoc]
    by_cases hfits : rule.name = name ∧ rule.common.validate = .ok ()
    · simp [hfits]
    · simp [hfits]

/-- Of the rules of a session the table holds the first valid one of each name. -/
theorem get?_afterSession (rules : List Rule) (name : String) :
    (afterSession rules).get? name =
      rules.find? fun rule => rule.name = name ∧ rule.common.validate = .ok () := by
  have hempty : empty.get? name = none := rfl
  simp only [afterSession, get?_run_session, hempty, Option.none_or]

theorem get?_afterSession_ne_none_iff {rules : List Rule} {name : String} :
    (afterSession rules).get? name ≠ none ↔
      ∃ rule ∈ rules, rule.name = name ∧ rule.common.validate = .ok () := by
  simp [get?_afterSession]

/-- What holds of a rule that is stored under a name. -/
structure IsStored (name : String) (rule : Rule) : Prop where
  own : rule.name = name
  named : name ≠ ""
  sources : rule.common.srcs ≠ []
  edition : rule.common.edition ∈ ["2015", "2018", "2021", "2024"]
  crateRoot : rule.common.kind = .buildScript → rule.common.crateRoot ≠ none
  aliases : ∀ dependency ∈ rule.common.aliases.keys, dependency ∈ rule.common.deps ∨
    dependency ∈ rule.common.procMacroDeps ∨ dependency ∈ rule.common.optionalDeps
  noSelf : ¬ rule.common.Lists name

theorem isStored_of_validate (h : rule.common.validate = .ok ()) : IsStored rule.name rule := by
  have hvalid : rule.common.IsValid := Target.validate_eq_ok_iff.1 h
  refine ⟨rfl, hvalid.named, hvalid.sources, hvalid.edition, ?_, ?_, ?_⟩
  · intro hkind
    apply hvalid.crateRoot
    simp [hkind, TargetKind.requiresCrateRoot]
  · intro dependency hmem
    simpa [Target.declaredDeps] using hvalid.aliases dependency hmem
  · intro hlists
    exact hvalid.noSelf (Target.mem_dependencyNames_iff.2 hlists)

/-- Whatever rules are added to a table that was empty: one that is refused leaves the table as it
was, and it is refused exactly if it is not valid or has the name of a valid one before it. In the
end the table has, under each name, the first valid rule of that name, and none where there is no
such rule; and what is stored is as it should be. -/
theorem session_exact (rules : List Rule) :
    (∀ table rule e table', afterEntry table rule = (.error e, table') → table' = table) ∧
      (∀ past rule rest, rules = past ++ rule :: rest →
        ((∃ e, ((afterSession past).afterEntry rule).1 = .error e) ↔
          rule.common.validate ≠ .ok () ∨
            ∃ earlier ∈ past, earlier.name = rule.name ∧ earlier.common.validate = .ok ())) ∧
      (∀ name, (afterSession rules).get? name =
        rules.find? fun rule => rule.name = name ∧ rule.common.validate = .ok ()) ∧
      ∀ name rule, (afterSession rules).get? name = some rule → IsStored name rule := by
  refine ⟨fun _ _ _ _ => eq_of_afterEntry_eq_error, ?_, get?_afterSession rules, ?_⟩
  · intro past rule rest _
    simp only [exists_afterEntry_eq_error_iff, get?_afterSession_ne_none_iff]
  · intro name rule hget
    simp only [get?_afterSession] at hget
    have hfits := List.find?_some hget
    simp only [decide_eq_true_eq] at hfits
    rcases hfits with ⟨rfl, hvalid⟩
    exact isStored_of_validate hvalid

end RuleTable

end BuildRules
