import BuildRules.Proofs.Resolution.Part

/-!
# More declared features

Features only add to a resolution. When the rules of a table declare more of them, more can go wrong
and more can be incompatible, but nothing is lost: the graph over the smaller table lies within the
graph over the larger one. Main statement: `features_additive`.
-/

namespace BuildRules

/-- A smaller resolved target, and one that has all of its units. -/
structure Resolved.Within (res whole : Resolved) : Prop where
  unit : res.unit.Within whole.unit
  closure : ∀ unit ∈ res.closure, ∃ other,
    whole.closureUnit? unit.key = some other ∧ unit.Within other

namespace Resolver

section

variable {r : Resolver} {table : RuleTable} {rule rule' : Rule} {platform : Platform}

theorem rootKey_eq_of_growsTo (hrule : rule.GrowsTo rule') :
    (r.graph rule platform).rootKey = ({ r with table }.graph rule' platform).rootKey :=
  congrArg (fun name => (⟨name, platform⟩ : UnitKey)) hrule.name_eq.symm

/-- Over a table with more declared features the graph of a rule is larger. -/
theorem embeds_of_growsTo (htable : r.table.GrowsTo table) (hrule : rule.GrowsTo rule') :
    (r.graph rule platform).Embeds ({ r with table }.graph rule' platform) := by
  refine ⟨rfl, htable, ?_, rule', ?_, hrule⟩
  · rw [rootKey_eq_of_growsTo hrule]
    exact UnitGraph.has_rootKey
  · rw [rootKey_eq_of_growsTo hrule]
    exact UnitGraph.rule?_rootKey _

theorem IsRead.within {part g : UnitGraph} {flags : List String} {requested requested' : Requests}
    {walk walk' : Walk} {res whole : Resolved} (h : IsRead part flags requested walk res)
    (h' : IsRead g flags requested' walk' whole) (hembeds : part.Embeds g)
    (hroot : part.rootKey = g.rootKey) : res.Within whole := by
  constructor
  · obtain ⟨other, hother, hwithin⟩ := h'.exists_within_of_embeds hembeds h List.mem_cons_self
    -- the key of the root is no key of a closure, so the unit is the root of the larger target
    rcases List.mem_cons.1 hother with rfl | hclosure
    · exact hwithin
    · have hne := (h'.mem_closure_iff.1 hclosure).2
      rw [← hwithin.key_eq, h.key_eq, hroot] at hne
      exact absurd rfl hne
  · intro unit hunit
    obtain ⟨hmem, hne⟩ := h.mem_closure_iff.1 hunit
    obtain ⟨other, hother, hwithin⟩ := h'.exists_within_of_embeds hembeds h hmem
    have hclosure : other ∈ whole.closure := by
      rw [hroot, hwithin.key_eq] at hne
      exact h'.mem_closure_iff.2 ⟨hother, hne⟩
    exact ⟨other, hwithin.key_eq ▸ h'.closureUnit?_eq_some hclosure, hwithin⟩

/-- What is not refused over the larger table is not refused over the smaller one. -/
theorem not_error_of_growsTo (htable : r.table.GrowsTo table) (hrule : rule.GrowsTo rule')
    {resolution : Resolution} (h : { r with table }.resolveRule rule' platform = .ok resolution)
    (e : RuleError) : r.resolveRule rule platform ≠ .error e := by
  intro herror
  obtain ⟨requested, outcome, walk, hlast, -⟩ := exists_lastWalk h
  obtain ⟨requested', hbacked, hrefused⟩ := exists_refused herror
  exact hlast.not_faulty_of_embeds (embeds_of_growsTo htable hrule) (hbacked.faulty hrefused)

/-- What is compatible over the larger table is compatible over the smaller one. -/
theorem exists_compatible_of_growsTo (htable : r.table.GrowsTo table) (hrule : rule.GrowsTo rule')
    {whole : Resolved}
    (h : { r with table }.resolveRule rule' platform = .ok (.compatible whole)) :
    ∃ res, r.resolveRule rule platform = .ok (.compatible res) ∧ res.Within whole := by
  have hembeds : (r.graph rule platform).Embeds ({ r with table }.graph rule' platform) :=
    embeds_of_growsTo htable hrule
  obtain ⟨requested, walk, hread⟩ := exists_isRead h
  obtain ⟨res, hres⟩ := exists_compatible (hread.last.not_faulty_of_embeds hembeds)
    fun u hu => hread.last.not_barred_of_embeds hembeds hu
  obtain ⟨requested', walk', hread'⟩ := exists_isRead hres
  exact ⟨res, hres, hread'.within hread hembeds (rootKey_eq_of_growsTo hrule)⟩

end

/-- When rules declare more features, what is compatible had all its units before, each with no
other features and dependencies than now; what was refused is refused; and what was incompatible is
not compatible. -/
theorem features_additive {r : Resolver} {table : RuleTable} (htable : r.table.GrowsTo table)
    (name : String) (platform : Platform) :
    (∀ whole, { r with table }.resolve name platform = .ok (.compatible whole) →
      ∃ res, r.resolve name platform = .ok (.compatible res) ∧ res.Within whole) ∧
    ((∃ e, r.resolve name platform = .error e) →
      ∃ e, { r with table }.resolve name platform = .error e) ∧
    ((∃ reason, r.resolve name platform = .ok (.incompatible reason)) →
      (∃ reason, { r with table }.resolve name platform = .ok (.incompatible reason)) ∨
        ∃ e, { r with table }.resolve name platform = .error e) := by
  cases hget : r.table.get? name with
  | none =>
    have hnone : { r with table }.table.get? name = none := htable.get?_eq_none hget
    unfold resolve
    rw [hget, hnone]
    simp
  | some rule =>
    -- the last two parts are read backwards: what the larger table lets pass the smaller one does
    obtain ⟨rule', hget', hrule⟩ := htable.exists_get? hget
    rw [resolve_of_get? hget, resolve_of_get? (r := { r with table }) hget']
    refine ⟨fun whole => exists_compatible_of_growsTo htable hrule, ?_, ?_⟩
    · rintro ⟨e, he⟩
      cases hresult : { r with table }.resolveRule rule' platform with
      | error e' => exact ⟨e', rfl⟩
      | ok resolution => exact absurd he (not_error_of_growsTo htable hrule hresult e)
    · rintro ⟨reason, hreason⟩
      cases hresult : { r with table }.resolveRule rule' platform with
      | error e => exact .inr ⟨e, rfl⟩
      | ok resolution =>
        cases resolution with
        | incompatible reason' => exact .inl ⟨reason', rfl⟩
        | compatible whole =>
          obtain ⟨res, hres, -⟩ := exists_compatible_of_growsTo htable hrule hresult
          rw [hreason] at hres
          cases hres

/-- The table of `relay` with the rule `relayed`, but for its features. -/
def modest : Resolver where
  table :=
    ⟨.ofList
      [ ("app", .target { Target.library "app" with deps := ["mid", "base"] }),
        ("base", .target (.library "base")),
        ("mid", .target { Target.library "mid" with deps := ["base"] }) ],
      by decide +kernel⟩
  settings := {}
  host? := none

def eager : RuleTable :=
  ⟨.ofList
    [ ("app", relayed),
      ("base", .target (.library "base")),
      ("mid", .target { Target.library "mid" with deps := ["base"] }) ],
    by decide +kernel⟩

theorem features_additive_eager :
    modest.table.GrowsTo eager ∧ ∃ res,
      modest.resolve "app" ⟨"linux"⟩ = .ok (.compatible res) ∧ res.Within relayResult := by
  have htable : modest.table.GrowsTo eager := ⟨by decide +kernel, by decide +kernel⟩
  have hwhole : { modest with table := eager }.resolve "app" ⟨"linux"⟩ =
      .ok (.compatible relayResult) := by
    decide +kernel
  exact ⟨htable, (features_additive htable "app" ⟨"linux"⟩).1 relayResult hwhole⟩

end Resolver

end BuildRules
