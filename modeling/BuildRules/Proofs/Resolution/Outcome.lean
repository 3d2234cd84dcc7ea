import BuildRules.Proofs.Except
import BuildRules.Proofs.Resolution.UnitGraph
import Mathlib.Data.List.Induction

/-!
# What a unit comes to

The outcome of a unit as a function of the outcomes at the ends of its edges, with no walk that
finds them. Main statements: a unit is compatible exactly when its rule takes part and every end is
compatible (`Settled.compatible`), and then its dependencies are the units at the ends
(`mem_deps_ofEnds_iff`).
-/

namespace BuildRules

/-- What a walk below the root is made with, when the given features are asked of units. -/
def UnitGraph.setting (g : UnitGraph) (flags : List String) (requested : Requests) :
    Walk.Setting where
  table := g.table
  extraFlags := flags
  host := g.host
  requested := requested

namespace Walk

/-! ## Edges -/

namespace Setting

variable (s : Setting)

/-- The edges of a rule that takes part, when all its optional dependencies are in the table. -/
def openEdges (rule : Rule) (platform : Platform) (labels : List String)
    (features : FeatureSelection) : List Edge :=
  (rule.common.deps ++ labels
      ++ rule.common.optionalDeps.filter fun d => rule.common.localName d ∈ features.activated).map
    (⟨·, s.dependencySide rule platform⟩)
  ++ rule.common.procMacroDeps.map (⟨·, s.host⟩)

variable {s}

theorem lookup_meets {target : Target} {name : String} :
    Meets (refuse (s.lookup target name)) (fun rule => s.table.get? name = some rule)
      (fun stop => s.table.get? name = none ∧
        stop = .refused (.undefinedDependency target.name name)) := by
  unfold lookup
  split
  · next rule h => exact h
  · next h => exact ⟨h, rfl⟩

theorem edges_meets {rule : Rule} {platform : Platform} {labels : List String}
    {features : FeatureSelection} :
    Meets (refuse (s.edges rule platform labels features))
      (fun edges => (∀ d ∈ rule.common.optionalDeps, s.table.get? d ≠ none) ∧
        edges = s.openEdges rule platform labels features)
      (fun stop => ∃ d ∈ rule.common.optionalDeps, s.table.get? d = none ∧
        stop = .refused (.undefinedDependency rule.name d)) := by
  unfold edges activeOptionalDeps
  cases hfind : rule.common.optionalDeps.find? fun d => (s.table.get? d).isNone with
  | none =>
    simp only [hfind]
    refine ⟨fun d hd hnone => ?_, rfl⟩
    simpa [hnone] using List.find?_eq_none.1 hfind d hd
  | some d =>
    have hnone := List.find?_some hfind
    simp only [hfind]
    exact ⟨d, List.mem_of_find?_eq_some hfind, by simpa using hnone, rfl⟩

end Setting

section

variable {g : UnitGraph} {flags : List String} {requested : Requests}

theorem mem_openEdges_iff {rule : Rule} {platform : Platform} {labels : List String}
    {features : FeatureSelection} {edge : Edge} :
    edge ∈ (g.setting flags requested).openEdges rule platform labels features ↔
      g.Needs rule platform labels features edge := by
  unfold Setting.openEdges
  constructor
  · intro h
    rcases List.mem_append.1 h with h | h
    · obtain ⟨name, hname, rfl⟩ := List.mem_map.1 h
      rcases List.mem_append.1 hname with hname | hname
      · rcases List.mem_append.1 hname with hname | hname
        · exact .dep hname
        · exact .label hname
      · obtain ⟨hname, hactive⟩ := List.mem_filter.1 hname
        exact .optional hname (of_decide_eq_true hactive)
    · obtain ⟨name, hname, rfl⟩ := List.mem_map.1 h
      exact .procMacro hname
  · intro h
    cases h with
    | @dep name h =>
      exact List.mem_append_left _ (List.mem_map.2
        ⟨name, List.mem_append_left _ (List.mem_append_left _ h), rfl⟩)
    | @label name h =>
      exact List.mem_append_left _ (List.mem_map.2
        ⟨name, List.mem_append_left _ (List.mem_append_right _ h), rfl⟩)
    | @optional name h active =>
      exact List.mem_append_left _ (List.mem_map.2
        ⟨name, List.mem_append_right _ (List.mem_filter.2 ⟨h, decide_eq_true active⟩), rfl⟩)
    | @procMacro name h =>
      exact List.mem_append_right _ (List.mem_map.2 ⟨name, h, rfl⟩)

end

/-! ## Ends of edges -/

def Outcome.reason? : Outcome → Option Reason
  | .compatible _ => none
  | .incompatible reason => some reason

theorem Outcome.reason?_eq_none_iff {outcome : Outcome} :
    outcome.reason? = none ↔ ∃ unit, outcome = .compatible unit := by
  cases outcome <;> simp [reason?]

theorem Outcome.reason?_eq_some_iff {outcome : Outcome} {reason : Reason} :
    outcome.reason? = some reason ↔ outcome = .incompatible reason := by
  cases outcome <;> simp [reason?]

/-- An edge with the rule it leads to and what that came to. -/
structure End where
  edge : Edge
  rule : Rule
  outcome : Outcome

/-- What the edges of a target bring in. -/
def Gathered.ofEnds (target : Target) (context : ScriptContext) (ends : List End) : Gathered :=
  ends.foldl (fun g e => g.add target context e.edge e.rule e.outcome) {}

theorem Gathered.ofEnds_concat (target : Target) (context : ScriptContext) (ends : List End)
    (e : End) :
    ofEnds target context (ends ++ [e]) =
      (ofEnds target context ends).add target context e.edge e.rule e.outcome := by
  simp [ofEnds]

section

variable {target : Target} {context : ScriptContext} {ends : List End}

theorem Gathered.mem_deps_ofEnds_iff {u : UnitKey} :
    u ∈ (ofEnds target context ends).deps ↔
      ∃ e ∈ ends, ∃ unit, e.outcome = .compatible unit ∧ unit.key = u := by
  induction ends using List.reverseRecOn with
  | nil => simp [ofEnds]
  | append_singleton ends e ih =>
    rw [ofEnds_concat]
    simp only [List.mem_append, List.mem_singleton, or_and_right, exists_or, exists_eq_left]
    rw [← ih]
    cases e.outcome with
    | incompatible reason => simp [add]
    | compatible unit =>
      simp only [add, Outcome.compatible.injEq, exists_eq_left']
      split
      · next hmem =>
        refine ⟨.inl, ?_⟩
        rintro (h | rfl)
        · exact h
        · exact hmem
      · simp [eq_comm]

/-- What blocks a target is the first of its ends that is incompatible. -/
theorem Gathered.blocked_ofEnds :
    (ofEnds target context ends).blocked = ends.findSome? fun e => e.outcome.reason? := by
  induction ends using List.reverseRecOn with
  | nil => simp [ofEnds]
  | append_singleton ends e ih =>
    rw [ofEnds_concat, List.findSome?_append, ← ih]
    cases houtcome : e.outcome with
    | incompatible reason => simp [add, Outcome.reason?, houtcome]
    | compatible unit => simp [add, Outcome.reason?, houtcome]

theorem Gathered.blocked_ofEnds_eq_none_iff :
    (ofEnds target context ends).blocked = none ↔
      ∀ e ∈ ends, ∃ unit, e.outcome = .compatible unit := by
  simp only [blocked_ofEnds, List.findSome?_eq_none_iff, Outcome.reason?_eq_none_iff]

end

/-! ## Outcomes -/

/-- What the build scripts among the dependencies of a target run for. -/
def Setting.context (s : Setting) (target : Target) (platform : Platform)
    (features : FeatureSelection) : ScriptContext where
  package := target.name
  version := target.version
  target := platform
  host := s.host
  features := features.enabled

/-- The compatible unit of a rule, when nothing blocks it. -/
def Setting.unitFrom (s : Setting) (rule : Rule) (platform : Platform) (ends : List End) :
    BuildUnit where
  key := ⟨rule.common.name, platform⟩
  kind := rule.common.kind
  features := (s.features rule.common platform).enabled
  compilerFlags := rule.common.compilerFlags ++ s.extraFlags
  deps := (Gathered.ofEnds rule.common
    (s.context rule.common platform (s.features rule.common platform)) ends).deps
  scriptEnv := (Gathered.ofEnds rule.common
    (s.context rule.common platform (s.features rule.common platform)) ends).scriptEnv
  aliases := (Gathered.ofEnds rule.common
    (s.context rule.common platform (s.features rule.common platform)) ends).aliases

/-- The ends of the edges of a rule that takes part on a platform. -/
structure EndsOf (s : Setting) (rule : Rule) (platform : Platform) (labels : List String)
    (ends : List End) : Prop where
  select : rule.common.select platform = some (.compatible labels)
  optional : ∀ d ∈ rule.common.optionalDeps, s.table.get? d ≠ none
  edges : ends.map End.edge =
    s.openEdges rule platform labels (s.features rule.common platform)
  rules : ∀ e ∈ ends, s.table.get? e.edge.name = some e.rule

/-- What a rule comes to at a platform, all units that it leads to being done. -/
inductive Settled (s : Setting) (done : SortedMap UnitKey Outcome) (rule : Rule)
    (platform : Platform) : Outcome → Prop
  | barred {viaFallback : Bool}
      (hselect : rule.common.select platform = some (.incompatible viaFallback)) :
      Settled s done rule platform (.incompatible (.condition rule.name platform viaFallback))
  | taken {labels : List String} {ends : List End} (hends : EndsOf s rule platform labels ends)
      (hdone : ∀ e ∈ ends, done.get? (s.unitOf e.edge e.rule) = some e.outcome) :
      Settled s done rule platform
        (conclude s rule.common platform (s.features rule.common platform)
          (.ofEnds rule.common (s.context rule.common platform (s.features rule.common platform))
            ends))

theorem Settled.mono {s : Setting} {done done' : SortedMap UnitKey Outcome} {rule : Rule}
    {platform : Platform} {outcome : Outcome}
    (hle : ∀ u o, done.get? u = some o → done'.get? u = some o)
    (h : Settled s done rule platform outcome) : Settled s done' rule platform outcome := by
  cases h with
  | barred hselect => exact .barred hselect
  | taken hends hdone => exact .taken hends fun e he => hle _ _ (hdone e he)

section

variable {s : Setting} {done : SortedMap UnitKey Outcome} {rule : Rule} {platform : Platform}
variable {outcome : Outcome}

theorem Settled.select_ne_none (h : Settled s done rule platform outcome) :
    rule.common.select platform ≠ none := by
  cases h with
  | barred hselect => simp [hselect]
  | taken hends hdone => simp [hends.select]

theorem Settled.exists_endsOf {labels : List String} (h : Settled s done rule platform outcome)
    (hselect : rule.common.select platform = some (.compatible labels)) :
    ∃ ends, EndsOf s rule platform labels ends ∧
      ∀ e ∈ ends, done.get? (s.unitOf e.edge e.rule) = some e.outcome := by
  cases h with
  | barred hbarred =>
    rw [hselect] at hbarred
    cases hbarred
  | @taken labels' ends hends hdone =>
    obtain rfl : labels = labels' := by
      have hlabels := hends.select
      rw [hselect] at hlabels
      cases hlabels
      rfl
    exact ⟨ends, hends, hdone⟩

/-- A compatible unit is made from compatible ends. -/
theorem Settled.eq_unitFrom {unit : BuildUnit}
    (h : Settled s done rule platform (.compatible unit)) :
    ∃ labels ends, EndsOf s rule platform labels ends ∧
      (∀ e ∈ ends, ∃ unit', e.outcome = .compatible unit' ∧
        done.get? (s.unitOf e.edge e.rule) = some (.compatible unit')) ∧
      unit = s.unitFrom rule platform ends := by
  generalize houtcome : Outcome.compatible unit = outcome at h
  cases h with
  | barred => cases houtcome
  | @taken labels ends hends hdone =>
    unfold conclude at houtcome
    split at houtcome
    · cases houtcome
    · next hblocked =>
      cases houtcome
      refine ⟨labels, ends, hends, fun e he => ?_, rfl⟩
      obtain ⟨unit', hunit'⟩ := Gathered.blocked_ofEnds_eq_none_iff.1 hblocked e he
      exact ⟨unit', hunit', hunit' ▸ hdone e he⟩

end

section

variable {g : UnitGraph} {flags : List String} {requested : Requests}
variable {done : SortedMap UnitKey Outcome} {u v : UnitKey} {rule : Rule}

theorem features_setting (hrule : g.rule? u = some rule) :
    (g.setting flags requested).features rule.common u.platform =
      rule.common.featuresFor (requested.asked u) := by
  have hkey : (⟨rule.common.name, u.platform⟩ : UnitKey) = u := by
    rw [show rule.common.name = u.name from UnitGraph.name_of_rule? hrule]
  unfold Setting.features Target.featuresFor Requests.asked
  rw [hkey]
  rfl

/-- Every link of a unit that takes part is one of its ends. -/
theorem EndsOf.exists_of_link {labels : List String} {ends : List End} {request : NameSet}
    (hends : EndsOf (g.setting flags requested) rule u.platform labels ends)
    (hrule : g.rule? u = some rule) (hlink : g.Link u (requested.asked u) v request) :
    ∃ e ∈ ends, g.place e.edge e.rule = v ∧
      (rule.common.featuresFor (requested.asked u)).requestsOn
        (rule.common.localName e.edge.name) = request := by
  cases hlink with
  | @intro rule' next labels' edge hrule' hselect' hneeds hnext =>
    obtain rfl : rule = rule' := by rw [hrule] at hrule'; exact Option.some.inj hrule'
    obtain rfl : labels = labels' := by
      have := hends.select
      rw [hselect'] at this
      cases this
      rfl
    have hedges := hends.edges
    rw [features_setting hrule] at hedges
    have hmem : edge ∈ ends.map End.edge := hedges ▸ mem_openEdges_iff.2 hneeds
    obtain ⟨e, he, rfl⟩ := List.mem_map.1 hmem
    obtain rfl : e.rule = next := by
      have := hends.rules e he
      exact Option.some.inj (this.symm.trans hnext)
    exact ⟨e, he, rfl, rfl⟩

/-- Every end of a unit that takes part is one of its links. -/
theorem EndsOf.link {labels : List String} {ends : List End} {e : End}
    (hends : EndsOf (g.setting flags requested) rule u.platform labels ends)
    (hrule : g.rule? u = some rule) (he : e ∈ ends) :
    g.Link u (requested.asked u) (g.place e.edge e.rule)
      ((rule.common.featuresFor (requested.asked u)).requestsOn
        (rule.common.localName e.edge.name)) := by
  have hedges := hends.edges
  rw [features_setting hrule] at hedges
  have hmem := hedges ▸ List.mem_map_of_mem he
  exact .intro hrule hends.select (mem_openEdges_iff.1 hmem) (hends.rules e he)

/-- A settled unit is done after every unit it leads to. -/
theorem Settled.done_of_follows {outcome : Outcome} (hrule : g.rule? u = some rule)
    (h : Settled (g.setting flags requested) done rule u.platform outcome)
    (hv : g.Follows requested u v) : ∃ o, done.get? v = some o := by
  obtain ⟨request, hlink⟩ := hv
  obtain ⟨labels, hselect⟩ := hlink.takes_part hrule
  obtain ⟨ends, hends, hdone⟩ := h.exists_endsOf hselect
  obtain ⟨e, he, rfl, -⟩ := hends.exists_of_link hrule hlink
  exact ⟨e.outcome, hdone e he⟩

/-- A compatible unit: its features are those flattened, and it depends on the units it leads to,
all of them compatible. -/
theorem Settled.compatible {unit : BuildUnit} (hrule : g.rule? u = some rule)
    (hkeys : ∀ v unit, done.get? v = some (.compatible unit) → unit.key = v)
    (h : Settled (g.setting flags requested) done rule u.platform (.compatible unit)) :
    unit.features = (rule.common.featuresFor (requested.asked u)).enabled ∧
      ∀ v, (v ∈ unit.deps ↔ g.Follows requested u v) ∧
        (g.Follows requested u v → ∃ unit', done.get? v = some (.compatible unit')) := by
  obtain ⟨labels, ends, hends, hdone, rfl⟩ := h.eq_unitFrom
  refine ⟨by rw [Setting.unitFrom, features_setting hrule], fun v => ⟨?_, ?_⟩⟩
  · refine Gathered.mem_deps_ofEnds_iff.trans ?_
    constructor
    · intro hdep
      obtain ⟨e, he, unit', hunit', rfl⟩ := hdep
      obtain ⟨unit'', hunit'', hdone'⟩ := hdone e he
      obtain rfl : unit' = unit'' := by
        rw [hunit'] at hunit''
        cases hunit''
        rfl
      rw [hkeys _ unit' hdone']
      exact ⟨_, hends.link hrule he⟩
    · intro hfollows
      obtain ⟨request, hlink⟩ := hfollows
      obtain ⟨e, he, rfl, -⟩ := hends.exists_of_link hrule hlink
      obtain ⟨unit', hunit', hdone'⟩ := hdone e he
      exact ⟨e, he, unit', hunit', hkeys _ unit' hdone'⟩
  · intro hfollows
    obtain ⟨request, hlink⟩ := hfollows
    obtain ⟨e, he, rfl, -⟩ := hends.exists_of_link hrule hlink
    obtain ⟨unit', -, hdone'⟩ := hdone e he
    exact ⟨unit', hdone'⟩

/-- An incompatible unit is barred by its own constraints, or blocked by its first incompatible
end. -/
theorem Settled.blocked {reason : Reason} (hrule : g.rule? u = some rule)
    (h : Settled (g.setting flags requested) done rule u.platform (.incompatible reason)) :
    (∃ viaFallback, rule.common.select u.platform = some (.incompatible viaFallback) ∧
        reason = .condition u.name u.platform viaFallback) ∨
      ∃ labels before e after reason',
        EndsOf (g.setting flags requested) rule u.platform labels (before ++ e :: after) ∧
        (∀ e' ∈ before, ∃ unit,
          done.get? (g.place e'.edge e'.rule) = some (.compatible unit)) ∧
        done.get? (g.place e.edge e.rule) = some (.incompatible reason') ∧
        reason = .dependency u.name u.platform reason' := by
  have hname : rule.common.name = u.name := UnitGraph.name_of_rule? hrule
  generalize houtcome : Outcome.incompatible reason = outcome at h
  cases h with
  | barred hselect =>
    cases houtcome
    exact .inl ⟨_, hselect, by rw [Rule.name, hname]⟩
  | @taken labels ends hends hdone =>
    unfold conclude at houtcome
    split at houtcome
    · next reason' hblocked =>
      cases houtcome
      rw [Gathered.blocked_ofEnds] at hblocked
      obtain ⟨before, e, after, rfl, hreason, hbefore⟩ := List.findSome?_eq_some_iff.1 hblocked
      refine .inr ⟨labels, before, e, after, reason', hends, fun e' he' => ?_, ?_, by rw [hname]⟩
      · obtain ⟨unit, hunit⟩ := Outcome.reason?_eq_none_iff.1 (hbefore e' he')
        exact ⟨unit, hunit ▸ hdone e' (List.mem_append_left _ he')⟩
      · rw [← Outcome.reason?_eq_some_iff.1 hreason]
        exact hdone e (List.mem_append_right _ List.mem_cons_self)
    · cases houtcome

/-- An incompatible unit is barred by its own constraints or leads to an incompatible one. -/
theorem Settled.incompatible {reason : Reason} (hrule : g.rule? u = some rule)
    (h : Settled (g.setting flags requested) done rule u.platform (.incompatible reason)) :
    (∃ viaFallback, rule.common.select u.platform = some (.incompatible viaFallback)) ∨
      ∃ v reason', g.Follows requested u v ∧ done.get? v = some (.incompatible reason') := by
  rcases h.blocked hrule with ⟨viaFallback, hselect, -⟩ | ⟨_, _, e, _, reason', hends, -, hdone, -⟩
  · exact .inl ⟨viaFallback, hselect⟩
  · have hlink := hends.link hrule (List.mem_append_right _ List.mem_cons_self)
    exact .inr ⟨_, reason', ⟨_, hlink⟩, hdone⟩

end

end Walk

end BuildRules
