import BuildRules.Proofs.Resolution.Resolved

/-!
# The verdict on a rule

Whether a rule is refused, incompatible or compatible depends on the graph of the units below it and
on nothing that a walk does. Main statement: `resolveRule_verdict`.
-/

namespace BuildRules

open Relation

namespace UnitGraph

/-! ## What decides the verdict -/

variable (g : UnitGraph)

/-- The unit takes part and names a rule that the table lacks. It names an optional dependency also
when no feature asks for it. -/
def Dangling (u : UnitKey) : Prop :=
  ∃ rule labels name, g.rule? u = some rule ∧
    rule.common.select u.platform = some (.compatible labels) ∧
    name ∈ rule.common.declaredDeps ++ labels ∧ g.table.get? name = none

/-- The constraints of the unit say nothing about its platform. -/
def Unmatched (u : UnitKey) : Prop :=
  ∃ rule map, g.rule? u = some rule ∧ rule.common.constraints = some map ∧
    map.entries.get? u.platform = none ∧ map.fallback = none

/-- The constraints of the unit select the incompatible label. -/
def Barred (u : UnitKey) : Prop :=
  ∃ rule map labels viaFallback, g.rule? u = some rule ∧ rule.common.constraints = some map ∧
    map.lookup u.platform = some (labels, viaFallback) ∧ incompatibleLabel ∈ labels

/-- Something is wrong below the root. -/
def Faulty : Prop :=
  (∃ u, g.Has u ∧ (g.Dangling u ∨ g.Unmatched u)) ∨ ∃ u, TransGen g.Leads u u

variable {g} {requested : Requests} {u : UnitKey} {rule : Rule}

theorem unmatched_iff (hrule : g.rule? u = some rule) :
    g.Unmatched u ↔ rule.common.select u.platform = none := by
  unfold Unmatched Target.select
  simp only [hrule, Option.some.injEq, exists_and_left, exists_eq_left']
  cases rule.common.constraints with
  | none => simp
  | some map => simp [ConstraintMap.select_eq_none_iff]

theorem barred_iff (hrule : g.rule? u = some rule) :
    g.Barred u ↔ ∃ viaFallback, rule.common.select u.platform = some (.incompatible viaFallback) := by
  unfold Barred
  simp only [hrule, Option.some.injEq, Target.select_eq_incompatible_iff]
  constructor
  · intro hbarred
    obtain ⟨rule, map, labels, viaFallback, rfl, hentry⟩ := hbarred
    exact ⟨viaFallback, map, labels, hentry⟩
  · intro hentry
    obtain ⟨viaFallback, map, labels, hentry⟩ := hentry
    exact ⟨rule, map, labels, viaFallback, rfl, hentry⟩

/-! ## Refused -/

/-- A walk whose requests the graph makes is refused only for what is wrong in the graph. -/
theorem Backs.faulty {e : RuleError} (h : g.Backs requested) (hrefused : g.Refused requested e) :
    g.Faulty := by
  cases hrefused with
  | undefined hu hrule hselect hname hmissing =>
    exact .inl ⟨_, h.has_of_reached hu, .inl ⟨_, _, _, hrule, hselect, hname, hmissing⟩⟩
  | unmatched hu hrule hselect =>
    exact .inl ⟨_, h.has_of_reached hu, .inr ((unmatched_iff hrule).2 hselect)⟩
  | @cycle path u hpath hmem =>
    refine .inr ⟨u, ?_⟩
    have hu := h.has_of_reached hpath.reached
    have hleads : ∀ {w}, TransGen (g.Follows requested) u w → TransGen g.Leads u w ∧ g.Has w := by
      intro w hw
      induction hw with
      | single hv =>
        obtain ⟨request, hlink⟩ := hv
        have hlast := (h.leads hu hlink).1
        exact ⟨.single hlast, hlast.has⟩
      | tail _ hv ih =>
        obtain ⟨request, hlink⟩ := hv
        have hlast := (h.leads ih.2 hlink).1
        exact ⟨.tail ih.1 hlast, hlast.has⟩
    exact (hleads (hpath.follows_of_mem hmem)).1

end UnitGraph

/-- All that a unit which takes part names is in the table. -/
theorem Walk.EndsOf.get?_ne_none {g : UnitGraph} {flags : List String} {requested : Requests}
    {rule : Rule} {platform : Platform} {labels : List String} {ends : List Walk.End} {name : String}
    (h : EndsOf (g.setting flags requested) rule platform labels ends)
    (hname : name ∈ rule.common.declaredDeps ++ labels) : g.table.get? name ≠ none := by
  have hedge : ∀ edge, g.Needs rule platform labels
      ((g.setting flags requested).features rule.common platform) edge →
      g.table.get? edge.name ≠ none := by
    intro edge hneeds
    have hmem := h.edges ▸ mem_openEdges_iff.2 hneeds
    obtain ⟨e, he, rfl⟩ := List.mem_map.1 hmem
    have hget : g.table.get? e.edge.name = some e.rule := h.rules e he
    rw [hget]
    exact Option.some_ne_none _
  rcases List.mem_append.1 hname with hname | hname
  · unfold Target.declaredDeps at hname
    rcases List.mem_append.1 hname with hname | hname
    · rcases List.mem_append.1 hname with hname | hname
      · exact hedge _ (.dep hname)
      · exact hedge _ (.procMacro hname)
    · -- optional dependencies are looked up whether they are edges or not
      exact h.optional name hname
  · exact hedge _ (.label hname)

namespace Resolver

section

variable {g : UnitGraph} {flags : List String} {requested : Requests}
variable {outcome : Walk.Outcome} {walk : Walk} {u : UnitKey}

/-- A walk that comes to an end has found nothing wrong. -/
theorem LastWalk.not_faulty (h : LastWalk g flags requested outcome walk) : ¬ g.Faulty := by
  intro hfaulty
  rcases hfaulty with ⟨u, hu, hwrong⟩ | ⟨u, hcycle⟩
  · obtain ⟨o, ho⟩ := h.done_iff.2 hu
    obtain ⟨rule, hrule, hsettled⟩ := h.sound.settled u o ho
    rcases hwrong with ⟨rule', labels, name, hrule', hselect, hname, hmissing⟩ | hunmatched
    · obtain rfl : rule = rule' := Option.some.inj (hrule.symm.trans hrule')
      obtain ⟨ends, hends, -⟩ := hsettled.exists_endsOf hselect
      exact hends.get?_ne_none hname hmissing
    · exact hsettled.select_ne_none ((UnitGraph.unmatched_iff hrule).1 hunmatched)
  · exact h.acyclic hcycle

/-! ## Incompatible -/

/-- An incompatible unit has a barred one below it. -/
theorem LastWalk.exists_barred {reason : Reason} (h : LastWalk g flags requested outcome walk)
    (hu : walk.done.get? u = some (.incompatible reason)) : ∃ v, g.Has v ∧ g.Barred v := by
  -- by induction down the graph, which ends below every unit that is done
  have hground := h.sound.grounded u _ hu
  induction hground generalizing reason with
  | intro u _ ih =>
    obtain ⟨rule, hrule, hsettled⟩ := h.sound.settled u _ hu
    rcases hsettled.incompatible hrule with hbarred | ⟨v, reason', hv, hdone⟩
    · exact ⟨u, h.done_iff.1 ⟨_, hu⟩, (UnitGraph.barred_iff hrule).2 hbarred⟩
    · exact ih v hv hdone

/-- A compatible unit is not barred. -/
theorem LastWalk.not_barred_of_done {unit : BuildUnit}
    (h : LastWalk g flags requested outcome walk)
    (hu : walk.done.get? u = some (.compatible unit)) : ¬ g.Barred u := by
  intro hbarred
  obtain ⟨rule, hrule, hsettled⟩ := h.sound.settled u _ hu
  obtain ⟨viaFallback, hselect⟩ := (UnitGraph.barred_iff hrule).1 hbarred
  obtain ⟨labels, ends, hends, -, -⟩ := hsettled.eq_unitFrom
  have hlabels := hends.select
  rw [hselect] at hlabels
  cases hlabels

/-- Where the root is compatible, no unit of the graph is barred. -/
theorem LastWalk.not_barred {unit : BuildUnit}
    (h : LastWalk g flags requested (.compatible unit) walk) (hu : g.Has u) : ¬ g.Barred u := by
  obtain ⟨unit', hunit'⟩ := h.compatible_of_has hu
  exact h.not_barred_of_done hunit'

end

/-! ## The verdict -/

/-- A rule is refused if something is wrong in the graph of the units below it; else it is
incompatible if a unit of the graph is barred; and else it is compatible, with the units of the
graph. -/
theorem resolveRule_verdict (r : Resolver) (rule : Rule) (platform : Platform) :
    ((∃ e, r.resolveRule rule platform = .error e) ↔ (r.graph rule platform).Faulty) ∧
    ((∃ reason, r.resolveRule rule platform = .ok (.incompatible reason)) ↔
      ¬ (r.graph rule platform).Faulty ∧
        ∃ u, (r.graph rule platform).Has u ∧ (r.graph rule platform).Barred u) ∧
    ((∃ res, r.resolveRule rule platform = .ok (.compatible res)) ↔
      ¬ (r.graph rule platform).Faulty ∧
        ∀ u, (r.graph rule platform).Has u → ¬ (r.graph rule platform).Barred u) ∧
    ∀ res, r.resolveRule rule platform = .ok (.compatible res) →
      res.unit.key = ⟨rule.name, platform⟩ ∧
        ∀ u, (r.graph rule platform).Has u ↔ ∃ unit ∈ res.unit :: res.closure, unit.key = u := by
  have hmeets := r.resolveRule_meets rule platform
  cases hresult : r.resolveRule rule platform with
  | error e =>
    rw [hresult] at hmeets
    obtain ⟨requested, hbacked, hrefused⟩ := hmeets
    have hfaulty := hbacked.faulty hrefused
    simp [hfaulty]
  | ok resolution =>
    rw [hresult] at hmeets
    obtain ⟨requested, outcome, walk, hlast, rfl⟩ := hmeets
    have hsound := hlast.not_faulty
    cases outcome with
    | incompatible reason =>
      have hbarred := hlast.exists_barred hlast.done
      simp only [Walk.resolution]
      refine ⟨?_, ?_, ?_, ?_⟩
      · simp [hsound]
      · simp [hsound, hbarred]
      · simpa [hsound] using hbarred
      · simp
    | compatible unit =>
      have hfree : ∀ u, (r.graph rule platform).Has u → ¬ (r.graph rule platform).Barred u :=
        fun u hu => hlast.not_barred hu
      have hread : IsRead (r.graph rule platform) r.settings.extraFlags requested walk
          { rule, unit, closure := walk.unitsBut unit.key } := ⟨hlast, rfl, rfl⟩
      simp only [Walk.resolution]
      refine ⟨?_, ?_, ?_, ?_⟩
      · simp [hsound]
      · simpa [hsound] using hfree
      · simpa [hsound] using hfree
      · intro res hres
        cases hres
        exact ⟨hread.key_eq, fun u => hread.has_iff⟩

end Resolver

end BuildRules
