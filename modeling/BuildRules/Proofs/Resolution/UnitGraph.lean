import BuildRules.Proofs.Resolution.Requests
import BuildRules.Proofs.Rule.Feature
import Mathlib.Logic.Relation

/-!
# The graph of units

The units below a rule, and what they ask of each other, said without a walk: a unit that takes part
leads to the units it needs, which of them it needs depends on what is asked of it, and what it asks
of them depends on that too. Main statement: the more is asked of a unit, the more it leads to
(`Link.mono`), so there is a least graph, and `Asked` is it.
-/

namespace BuildRules

/-- The features of a target of which the given ones are asked. -/
def Target.featuresFor (t : Target) (asked : NameSet) : FeatureSelection :=
  t.featureMap.flatten (t.features ∪ asked)

theorem Target.featuresFor_mono (t : Target) {asked asked' : NameSet} (h : asked ⊆ asked') :
    (t.featuresFor asked).Within (t.featuresFor asked') :=
  t.featureMap.flatten_mono (SortedSet.union_subset_union_right _ h)

/-- The graph of the units below a rule at a platform, given by what it is drawn from. -/
structure UnitGraph where
  table : RuleTable
  host : Platform
  root : Rule
  platform : Platform

namespace UnitGraph

variable (g : UnitGraph)

def rootKey : UnitKey := ⟨g.root.name, g.platform⟩

/-- The rule of a unit; the root need not be in the table. -/
def rule? (u : UnitKey) : Option Rule := if u = g.rootKey then some g.root else g.table.get? u.name

@[simp] theorem rule?_rootKey : g.rule? g.rootKey = some g.root := if_pos rfl

variable {g} in
theorem name_of_rule? {u : UnitKey} {rule : Rule} (h : g.rule? u = some rule) :
    rule.name = u.name := by
  unfold rule? at h
  split at h
  · next hu =>
    cases h
    rw [hu, rootKey]
  · exact RuleTable.name_of_get? h

/-! ## Links -/

/-- The side on which a rule needs its dependencies: a build script runs on the host, and so does
everything it depends on. -/
def side (rule : Rule) (platform : Platform) : Platform := if rule.isScript then g.host else platform

/-- What a rule needs at a platform where its constraints select the labels. -/
inductive Needs (rule : Rule) (platform : Platform) (labels : List String)
    (features : FeatureSelection) : Edge → Prop
  | dep {name : String} (h : name ∈ rule.common.deps) :
      Needs rule platform labels features ⟨name, g.side rule platform⟩
  | label {name : String} (h : name ∈ labels) :
      Needs rule platform labels features ⟨name, g.side rule platform⟩
  | optional {name : String} (h : name ∈ rule.common.optionalDeps)
      (active : rule.common.localName name ∈ features.activated) :
      Needs rule platform labels features ⟨name, g.side rule platform⟩
  | procMacro {name : String} (h : name ∈ rule.common.procMacroDeps) :
      Needs rule platform labels features ⟨name, g.host⟩

/-- The unit of a dependency; what runs while others are built is built for the host. -/
def place (edge : Edge) (next : Rule) : UnitKey :=
  ⟨edge.name, if next.common.kind.runsOnHost then g.host else edge.platform⟩

/-- A unit of which features are asked takes part, leads to another one and asks features of it. -/
inductive Link : UnitKey → NameSet → UnitKey → NameSet → Prop
  | intro {u : UnitKey} {asked : NameSet} {rule next : Rule} {labels : List String} {edge : Edge}
      (hrule : g.rule? u = some rule)
      (hselect : rule.common.select u.platform = some (.compatible labels))
      (hneeds : g.Needs rule u.platform labels (rule.common.featuresFor asked) edge)
      (hnext : g.table.get? edge.name = some next) :
      Link u asked (g.place edge next)
        ((rule.common.featuresFor asked).requestsOn (rule.common.localName edge.name))

variable {g}

theorem Needs.mono {rule : Rule} {platform : Platform} {labels : List String}
    {features features' : FeatureSelection} {edge : Edge} (hf : features.Within features')
    (h : g.Needs rule platform labels features edge) :
    g.Needs rule platform labels features' edge := by
  cases h with
  | dep h => exact .dep h
  | label h => exact .label h
  | optional h active => exact .optional h (hf.activated _ active)
  | procMacro h => exact .procMacro h

/-- The more is asked of a unit, the more it leads to and the more it asks in turn. -/
theorem Link.mono {u v : UnitKey} {asked asked' request : NameSet} (ha : asked ⊆ asked')
    (h : g.Link u asked v request) : ∃ request', request ⊆ request' ∧ g.Link u asked' v request' := by
  cases h with
  | @intro rule next labels edge hrule hselect hneeds hnext =>
    have hf := rule.common.featuresFor_mono ha
    exact ⟨_, hf.requests _, .intro hrule hselect (hneeds.mono hf) hnext⟩

/-- Only a unit that takes part leads to others. -/
theorem Link.takes_part {u v : UnitKey} {asked request : NameSet} {rule : Rule}
    (h : g.Link u asked v request) (hrule : g.rule? u = some rule) :
    ∃ labels, rule.common.select u.platform = some (.compatible labels) := by
  cases h with
  | @intro rule' next labels edge hrule' hselect =>
    obtain rfl : rule = rule' := Option.some.inj (hrule.symm.trans hrule')
    exact ⟨labels, hselect⟩

/-- What a unit asks of another one it asks under its own name for it. -/
theorem Link.request_eq {u v : UnitKey} {asked request : NameSet} {rule : Rule}
    (h : g.Link u asked v request) (hrule : g.rule? u = some rule) :
    request = (rule.common.featuresFor asked).requestsOn (rule.common.localName v.name) := by
  cases h with
  | @intro rule' next labels edge hrule' =>
    obtain rfl : rule = rule' := Option.some.inj (hrule.symm.trans hrule')
    rfl

variable (g)

/-- A unit leads to another one when the given features are asked of units. -/
def Follows (requested : Requests) (u v : UnitKey) : Prop :=
  ∃ request, g.Link u (requested.asked u) v request

/-! ## The least graph -/

/-- `Asked u features`: the unit is in the graph, and the features are asked of it. -/
inductive Asked : UnitKey → NameSet → Prop
  | root : Asked g.rootKey ∅
  | link {u v : UnitKey} {asked request : NameSet} (hu : Asked u asked)
      (hlink : g.Link u asked v request) : Asked v request
  | union {u : UnitKey} {asked asked' : NameSet} (h : Asked u asked) (h' : Asked u asked') :
      Asked u (asked ∪ asked')

/-- Units that take part and the features asked of them, from which no link leads away. -/
structure Closed (has : UnitKey → Prop) (asked : UnitKey → NameSet) : Prop where
  root : has g.rootKey
  link : ∀ u v request, has u → g.Link u (asked u) v request → has v ∧ request ⊆ asked v

/-- The units of the graph. -/
def Has (u : UnitKey) : Prop := ∃ asked, g.Asked u asked

/-- The edges of the graph. -/
def Leads (u v : UnitKey) : Prop := ∃ asked request, g.Asked u asked ∧ g.Link u asked v request

variable {g}

/-- The least graph is part of every closed one. -/
theorem Asked.of_closed {has : UnitKey → Prop} {asked : UnitKey → NameSet} {u : UnitKey}
    {features : NameSet} (h : g.Asked u features) (hclosed : g.Closed has asked) :
    has u ∧ features ⊆ asked u := by
  induction h with
  | root => exact ⟨hclosed.root, SortedSet.empty_subset _⟩
  | @link u v features request _ hlink ih =>
    obtain ⟨request', hrequest, hlink'⟩ := hlink.mono ih.2
    obtain ⟨hv, hsubset⟩ := hclosed.link u v request' ih.1 hlink'
    exact ⟨hv, SortedSet.Subset.trans hrequest hsubset⟩
  | union _ _ ih ih' => exact ⟨ih.1, SortedSet.union_subset ih.2 ih'.2⟩

theorem has_rootKey : g.Has g.rootKey := ⟨∅, .root⟩

theorem Leads.has {u v : UnitKey} (h : g.Leads u v) : g.Has v := by
  obtain ⟨asked, request, hu, hlink⟩ := h
  exact ⟨request, .link hu hlink⟩

/-- Features that are asked of a unit one by one are asked of it together. -/
theorem Has.asked_together {u : UnitKey} (hu : g.Has u) {features : NameSet}
    (h : ∀ f ∈ features, ∃ asked, g.Asked u asked ∧ f ∈ asked) :
    ∃ asked, g.Asked u asked ∧ features ⊆ asked := by
  -- one feature after the other, each united with those before
  have hlist : ∀ l : List String, (∀ f ∈ l, ∃ asked, g.Asked u asked ∧ f ∈ asked) →
      ∃ asked, g.Asked u asked ∧ ∀ f ∈ l, f ∈ asked := by
    intro l h
    induction l with
    | nil =>
      obtain ⟨asked, hasked⟩ := hu
      exact ⟨asked, hasked, by simp⟩
    | cons f rest ih =>
      obtain ⟨asked, hasked, hf⟩ := h f List.mem_cons_self
      obtain ⟨asked', hasked', hrest⟩ := ih fun f hf => h f (List.mem_cons_of_mem _ hf)
      refine ⟨asked ∪ asked', hasked.union hasked', fun f' hf' => ?_⟩
      rcases List.mem_cons.1 hf' with rfl | hf'
      · exact SortedSet.subset_union_left _ _ _ hf
      · exact SortedSet.subset_union_right _ _ _ (hrest f' hf')
  exact hlist features.toList h

end UnitGraph

end BuildRules
