import BuildRules.Proofs.Resolution.Resolved

/-!
# Unified features

A unit of a resolved target has the features that its rule declares and those that the units which
depend on it ask for, whichever walk found out about them. Main statement: `features_unified`.
-/

namespace BuildRules

/-- A unit depends on another one and asks a feature of it, when the given features are asked of
units. It asks under its own name for the other unit. -/
def UnitGraph.AsksOf (g : UnitGraph) (asked : UnitKey → NameSet) (unit : BuildUnit) (u : UnitKey)
    (feature : String) : Prop :=
  u ∈ unit.deps ∧ ∃ rule, g.rule? unit.key = some rule ∧
    feature ∈ (rule.common.featuresFor (asked unit.key)).requestsOn (rule.common.localName u.name)

/-- How the features of a resolved target come about. -/
structure UnitGraph.Unifies (g : UnitGraph) (asked : UnitKey → NameSet) (res : Resolved) : Prop where
  /-- Asked of a unit is what the units that depend on it ask, and nothing else. -/
  asked_iff : ∀ u feature, feature ∈ asked u ↔
    ∃ unit ∈ res.unit :: res.closure, g.AsksOf asked unit u feature
  /-- A unit has the declared features of its rule and those asked of it, flattened. -/
  features : ∀ unit ∈ res.unit :: res.closure, ∃ rule, g.rule? unit.key = some rule ∧
    unit.features = (rule.common.featureMap.flatten (rule.common.features ∪ asked unit.key)).enabled
  /-- Nothing is asked of the root. -/
  root : res.unit.features = (g.root.common.featureMap.flatten g.root.common.features).enabled

namespace Resolver

section

variable {g : UnitGraph} {flags : List String} {requested : Requests}
variable {outcome : Walk.Outcome} {walk : Walk} {u : UnitKey} {feature : String}

/-- What earlier walks asked for is still asked for in the last one, and nothing else is. -/
theorem LastWalk.mem_asked_iff (h : LastWalk g flags requested outcome walk) :
    feature ∈ requested.asked u ↔
      ∃ v request, g.Has v ∧ g.Link v (requested.asked v) u request ∧ feature ∈ request := by
  constructor
  · intro hfeature
    obtain ⟨asked, hasked, hmem⟩ := h.backed u feature hfeature
    -- the graph makes the request, and the last walk has all of the graph
    induction hasked with
    | root => exact absurd hmem (SortedSet.not_mem_empty feature)
    | @link v u asked request hv hlink =>
      obtain ⟨request', hsubset, hlink'⟩ := hlink.mono (h.asked hv).2
      exact ⟨v, request', ⟨asked, hv⟩, hlink', hsubset feature hmem⟩
    | union _ _ ih ih' =>
      rcases SortedSet.mem_union.1 hmem with hmem | hmem
      · exact ih hfeature hmem
      · exact ih' hfeature hmem
  · intro hlinked
    obtain ⟨v, request, hv, hlink, hmem⟩ := hlinked
    obtain ⟨o, ho⟩ := h.done_iff.2 hv
    exact h.covered u feature (h.sound.noted v o ho u request hlink feature hmem)

variable {res : Resolved} {unit : BuildUnit}

theorem IsRead.asksOf_iff (h : IsRead g flags requested walk res)
    (hunit : unit ∈ res.unit :: res.closure) :
    g.AsksOf requested.asked unit u feature ↔
      ∃ request, g.Link unit.key (requested.asked unit.key) u request ∧ feature ∈ request := by
  obtain ⟨⟨rule, hrule, -⟩, hdeps⟩ := h.of_mem hunit
  have hhas : g.Has unit.key := h.has_iff.2 ⟨unit, hunit, rfl⟩
  constructor
  · intro hasks
    obtain ⟨hdep, rule', hrule', hmem⟩ := hasks
    obtain rfl : rule = rule' := Option.some.inj (hrule.symm.trans hrule')
    obtain ⟨request, hlink⟩ := (h.last.follows_iff hhas).2 ((hdeps u).1 hdep)
    rw [← hlink.request_eq hrule] at hmem
    exact ⟨request, hlink, hmem⟩
  · intro hlinked
    obtain ⟨request, hlink, hmem⟩ := hlinked
    rw [hlink.request_eq hrule] at hmem
    exact ⟨(hdeps u).2 ((h.last.follows_iff hhas).1 ⟨request, hlink⟩), rule, hrule, hmem⟩

/-- What is asked of a unit is what the units that depend on it ask. -/
theorem IsRead.mem_asked_iff (h : IsRead g flags requested walk res) :
    feature ∈ requested.asked u ↔
      ∃ unit ∈ res.unit :: res.closure, g.AsksOf requested.asked unit u feature := by
  rw [h.last.mem_asked_iff]
  constructor
  · intro hlinked
    obtain ⟨v, request, hv, hlink, hmem⟩ := hlinked
    obtain ⟨unit, hunit, rfl⟩ := h.has_iff.1 hv
    exact ⟨unit, hunit, (h.asksOf_iff hunit).2 ⟨request, hlink, hmem⟩⟩
  · intro hasked
    obtain ⟨unit, hunit, hasks⟩ := hasked
    obtain ⟨request, hlink, hmem⟩ := (h.asksOf_iff hunit).1 hasks
    exact ⟨unit.key, request, h.has_iff.2 ⟨unit, hunit, rfl⟩, hlink, hmem⟩

/-- Nothing is asked of the root. -/
theorem IsRead.asked_root (h : IsRead g flags requested walk res) :
    requested.asked g.rootKey = ∅ := by
  apply SortedSet.ext_mem
  intro feature
  constructor
  · intro hfeature
    obtain ⟨unit, hunit, hdep, -⟩ := h.mem_asked_iff.1 hfeature
    exact absurd (((h.of_mem hunit).2 g.rootKey).1 hdep) h.last.not_leads_rootKey
  · intro hfeature
    exact absurd hfeature (SortedSet.not_mem_empty feature)

theorem IsRead.unifies (h : IsRead g flags requested walk res) :
    g.Unifies requested.asked res where
  asked_iff u feature := h.mem_asked_iff
  features unit hunit := (h.of_mem hunit).1
  root := by
    obtain ⟨rule, hrule, hfeatures⟩ := (h.of_mem List.mem_cons_self).1
    rw [h.key_eq, UnitGraph.rule?_rootKey, Option.some.injEq] at hrule
    rw [hfeatures, h.key_eq, h.asked_root, ← hrule]
    unfold Target.featuresFor
    rw [SortedSet.union_empty]

/-- What is asked of the units above a unit decides what is asked of the unit. -/
theorem IsRead.unifies_unique (h : IsRead g flags requested walk res)
    {asked asked' : UnitKey → NameSet} (hasked : g.Unifies asked res)
    (hasked' : g.Unifies asked' res) : asked = asked' := by
  funext u
  induction u using h.last.wellFounded_leads.induction with
  | _ u ih =>
    apply SortedSet.ext_mem
    intro feature
    rw [hasked.asked_iff, hasked'.asked_iff]
    refine exists_congr fun unit => and_congr_right fun hunit => ?_
    unfold UnitGraph.AsksOf
    refine and_congr_right fun hdep => ?_
    rw [ih unit.key (((h.of_mem hunit).2 u).1 hdep)]

end

/-- The features of a resolved target are unified, in the one way in which they can be: nothing that
a unit asks for is lost, and nothing is enabled that no unit asks for. Units of one name on two
platforms are units of their own. -/
theorem features_unified {r : Resolver} {rule : Rule} {platform : Platform} {res : Resolved}
    (h : r.resolveRule rule platform = .ok (.compatible res)) :
    ∃! asked, (r.graph rule platform).Unifies asked res := by
  obtain ⟨requested, walk, hread⟩ := exists_isRead h
  have hunifies := hread.unifies
  exact ⟨requested.asked, hunifies, fun asked hasked => hread.unifies_unique hasked hunifies⟩

theorem features_unified_relay :
    relay.resolveRule relayed ⟨"linux"⟩ = .ok (.compatible relayResult) ∧
      ∃! asked, (relay.graph relayed ⟨"linux"⟩).Unifies asked relayResult :=
  ⟨resolveRule_relay, features_unified resolveRule_relay⟩

end Resolver

end BuildRules
