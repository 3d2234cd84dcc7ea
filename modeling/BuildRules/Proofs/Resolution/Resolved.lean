import BuildRules.Proofs.Graph.Cycle
import BuildRules.Proofs.Resolution.Termination

/-!
# What a resolved target holds

A last walk that finds the root compatible finds the whole graph compatible. Main statements: the
graph has no cycle (`LastWalk.acyclic`), its units are those of the resolved target
(`IsRead.has_iff`), and each of them depends on the units it leads to (`IsRead.of_mem`).
-/

namespace BuildRules

open Relation

theorem UnitGraph.has_iff_reflTransGen {g : UnitGraph} {u : UnitKey} :
    g.Has u ↔ ReflTransGen g.Leads g.rootKey u := by
  constructor
  · intro hhas
    obtain ⟨asked, hasked⟩ := hhas
    induction hasked with
    | root => exact .refl
    | link hu hlink ih => exact .tail ih ⟨_, _, hu, hlink⟩
    | union _ _ ih => exact ih
  · intro h
    cases h with
    | refl => exact has_rootKey
    | tail _ hlast => exact hlast.has

namespace Walk

theorem mem_unitsBut_iff {walk : Walk} {key : UnitKey} {unit : BuildUnit} :
    unit ∈ walk.unitsBut key ↔
      ∃ u ∈ walk.order, u ≠ key ∧ walk.done.get? u = some (.compatible unit) := by
  unfold unitsBut
  rw [List.mem_filterMap]
  constructor
  · intro h
    obtain ⟨u, hu, hunit⟩ := h
    obtain ⟨horder, hne⟩ := List.mem_filter.1 hu
    refine ⟨u, horder, of_decide_eq_true hne, ?_⟩
    split at hunit
    · next found hfound =>
      cases hunit
      exact hfound
    · cases hunit
  · intro h
    obtain ⟨u, horder, hne, hunit⟩ := h
    exact ⟨u, List.mem_filter.2 ⟨horder, decide_eq_true hne⟩, by rw [hunit]⟩

end Walk

namespace Resolver

section

variable {g : UnitGraph} {flags : List String} {requested : Requests}
variable {outcome : Walk.Outcome} {walk : Walk} {u v : UnitKey}

/-! ## The graph of a last walk -/

theorem LastWalk.acyclic (h : LastWalk g flags requested outcome walk) : ¬ TransGen g.Leads u u := by
  intro hcycle
  have hstart : ∀ {w}, TransGen g.Leads u w → g.Has u := by
    intro w hw
    obtain ⟨_, hfirst, -⟩ := TransGen.head'_iff.1 hw
    obtain ⟨asked, request, hasked, -⟩ := hfirst
    exact ⟨asked, hasked⟩
  have hu := hstart hcycle
  -- what the graph has, the walk has done, and nothing that is done has a cycle below it
  obtain ⟨o, ho⟩ := h.done_iff.2 hu
  apply not_transGen_self_of_acc (h.sound.grounded u o ho)
  have hfollows : ∀ {w}, TransGen g.Leads u w → TransGen (g.Follows requested) u w := by
    intro w hw
    induction hw with
    | single hlast => exact .single ((h.follows_iff hu).2 hlast)
    | tail _ hlast ih =>
      obtain ⟨asked, request, hasked, hlink⟩ := hlast
      exact .tail ih ((h.follows_iff ⟨asked, hasked⟩).2 ⟨asked, request, hasked, hlink⟩)
  exact hfollows hcycle

theorem LastWalk.not_leads_rootKey (h : LastWalk g flags requested outcome walk) :
    ¬ g.Leads u g.rootKey := by
  intro hlast
  obtain ⟨asked, request, hasked, hlink⟩ := hlast
  have hreach := UnitGraph.has_iff_reflTransGen.1 ⟨asked, hasked⟩
  exact h.acyclic (TransGen.tail' hreach ⟨asked, request, hasked, hlink⟩)

/-- Ways up come to an end too: a unit has fewer units above it than those that it leads to. -/
theorem LastWalk.wellFounded_leads (h : LastWalk g flags requested outcome walk) :
    WellFounded g.Leads := by
  classical
  let above (u : UnitKey) : Finset UnitKey := g.units.filter fun v => TransGen g.Leads v u
  have habove : ∀ v u, g.Leads v u → above v ⊂ above u := by
    intro v u hleads
    refine ⟨fun w hw => ?_, fun hsubset => ?_⟩
    · obtain ⟨hunits, hway⟩ := Finset.mem_filter.1 hw
      exact Finset.mem_filter.2 ⟨hunits, .tail hway hleads⟩
    · have ⟨_, _, hasked, _⟩ := hleads
      have hv : v ∈ above u :=
        Finset.mem_filter.2 ⟨hasked.mem_requestable.1, .single hleads⟩
      exact h.acyclic (Finset.mem_filter.1 (hsubset hv)).2
  exact Subrelation.wf (fun hleads => Finset.card_lt_card (habove _ _ hleads))
    (measure fun u => (above u).card).wf

/-- All that a compatible unit leads to is compatible. -/
theorem LastWalk.compatible_of_reflTransGen {unit : BuildUnit}
    (h : LastWalk g flags requested outcome walk)
    (hu : walk.done.get? u = some (.compatible unit)) (hway : ReflTransGen g.Leads u v) :
    ∃ unit', walk.done.get? v = some (.compatible unit') := by
  induction hway with
  | refl => exact ⟨unit, hu⟩
  | @tail v w _ hlast ih =>
    have ⟨asked, _, hasked, _⟩ := hlast
    obtain ⟨unit', hunit'⟩ := ih
    obtain ⟨rule, hrule, hsettled⟩ := h.sound.settled v _ hunit'
    obtain ⟨-, hdeps⟩ := hsettled.compatible hrule h.sound.key_eq
    exact (hdeps w).2 ((h.follows_iff ⟨asked, hasked⟩).2 hlast)

/-- Where the root is compatible, every unit of the graph is. -/
theorem LastWalk.compatible_of_has {unit : BuildUnit}
    (h : LastWalk g flags requested (.compatible unit) walk) (hu : g.Has u) :
    ∃ unit', walk.done.get? u = some (.compatible unit') :=
  h.compatible_of_reflTransGen h.done (UnitGraph.has_iff_reflTransGen.1 hu)

/-! ## Resolved targets -/

/-- A resolved target as it is read off a last walk. -/
structure IsRead (g : UnitGraph) (flags : List String) (requested : Requests) (walk : Walk)
    (res : Resolved) : Prop where
  last : LastWalk g flags requested (.compatible res.unit) walk
  rule : res.rule = g.root
  closure : res.closure = walk.unitsBut res.unit.key

variable {res : Resolved} {unit : BuildUnit}

theorem IsRead.key_eq (h : IsRead g flags requested walk res) : res.unit.key = g.rootKey :=
  h.last.sound.key_eq _ _ h.last.done

/-- The units of a resolved target are those that are done. -/
theorem IsRead.mem_iff (h : IsRead g flags requested walk res) :
    unit ∈ res.unit :: res.closure ↔ walk.done.get? unit.key = some (.compatible unit) := by
  rw [List.mem_cons, h.closure, Walk.mem_unitsBut_iff]
  constructor
  · intro hmem
    rcases hmem with rfl | ⟨u, -, -, hu⟩
    · rw [h.key_eq]
      exact h.last.done
    · rw [h.last.sound.key_eq u unit hu]
      exact hu
  · intro hdone
    by_cases hkey : unit.key = res.unit.key
    · rw [hkey, h.key_eq, h.last.done] at hdone
      cases hdone
      exact .inl rfl
    · exact .inr ⟨unit.key, h.last.sound.listed _ _ hdone, hkey, hdone⟩

/-- The units of a resolved target are those of the graph. -/
theorem IsRead.has_iff (h : IsRead g flags requested walk res) :
    g.Has u ↔ ∃ unit ∈ res.unit :: res.closure, unit.key = u := by
  constructor
  · intro hu
    obtain ⟨unit, hunit⟩ := h.last.compatible_of_has hu
    have hkey := h.last.sound.key_eq u unit hunit
    exact ⟨unit, h.mem_iff.2 (hkey ▸ hunit), hkey⟩
  · intro hunits
    obtain ⟨unit, hmem, rfl⟩ := hunits
    exact h.last.done_iff.1 ⟨_, h.mem_iff.1 hmem⟩

/-- A unit of a resolved target has the features that are asked of it flattened, and depends on the
units it leads to. -/
theorem IsRead.of_mem (h : IsRead g flags requested walk res)
    (hunit : unit ∈ res.unit :: res.closure) :
    (∃ rule, g.rule? unit.key = some rule ∧
      unit.features = (rule.common.featuresFor (requested.asked unit.key)).enabled) ∧
    ∀ v, v ∈ unit.deps ↔ g.Leads unit.key v := by
  have hdone := h.mem_iff.1 hunit
  obtain ⟨rule, hrule, hsettled⟩ := h.last.sound.settled _ _ hdone
  obtain ⟨hfeatures, hdeps⟩ := hsettled.compatible hrule h.last.sound.key_eq
  refine ⟨⟨rule, hrule, hfeatures⟩, fun v => ?_⟩
  have hhas : g.Has unit.key := h.has_iff.2 ⟨unit, hunit, rfl⟩
  exact (hdeps v).1.trans (h.last.follows_iff hhas)

theorem IsRead.mem_closure_iff (h : IsRead g flags requested walk res) :
    unit ∈ res.closure ↔ unit ∈ res.unit :: res.closure ∧ unit.key ≠ g.rootKey := by
  rw [h.mem_iff, ← h.key_eq, h.closure, Walk.mem_unitsBut_iff]
  constructor
  · intro hmem
    obtain ⟨u, -, hne, hu⟩ := hmem
    rw [h.last.sound.key_eq u unit hu]
    exact ⟨hu, hne⟩
  · intro hdone
    exact ⟨unit.key, h.last.sound.listed _ _ hdone.1, hdone.2, hdone.1⟩

/-- A closure has one unit of a key. -/
theorem IsRead.closureUnit?_eq_some (h : IsRead g flags requested walk res)
    (hunit : unit ∈ res.closure) : res.closureUnit? unit.key = some unit := by
  unfold Resolved.closureUnit?
  cases hfind : res.closure.find? fun other => other.key = unit.key with
  | none => simpa using List.find?_eq_none.1 hfind unit hunit
  | some other =>
    have hkey : other.key = unit.key := by simpa using List.find?_some hfind
    have hother := h.mem_iff.1 (h.mem_closure_iff.1 (List.mem_of_find?_eq_some hfind)).1
    have hdone := h.mem_iff.1 (h.mem_closure_iff.1 hunit).1
    rw [hkey, hdone] at hother
    cases hother
    rfl

/-- A unit of a resolved target is made from the units at the ends of its rule's edges. -/
theorem IsRead.exists_ends (h : IsRead g flags requested walk res)
    (hunit : unit ∈ res.unit :: res.closure) :
    ∃ rule labels ends, g.rule? unit.key = some rule ∧
      Walk.EndsOf (g.setting flags requested) rule unit.key.platform labels ends ∧
      (∀ e ∈ ends, ∃ unit', e.outcome = .compatible unit' ∧
        unit'.key = g.place e.edge e.rule) ∧
      unit = (g.setting flags requested).unitFrom rule unit.key.platform ends := by
  obtain ⟨rule, hrule, hsettled⟩ := h.last.sound.settled _ _ (h.mem_iff.1 hunit)
  obtain ⟨labels, ends, hends, hdone, heq⟩ := hsettled.eq_unitFrom
  refine ⟨rule, labels, ends, hrule, hends, fun e he => ?_, heq⟩
  obtain ⟨unit', hunit', hdone'⟩ := hdone e he
  exact ⟨unit', hunit', h.last.sound.key_eq _ unit' hdone'⟩

/-- The kind and the flags of a unit are those of its rule, with the flags that all units have. -/
theorem IsRead.declared (h : IsRead g flags requested walk res)
    (hunit : unit ∈ res.unit :: res.closure) {rule : Rule} (hrule : g.rule? unit.key = some rule) :
    unit.kind = rule.common.kind ∧ unit.compilerFlags = rule.common.compilerFlags ++ flags := by
  obtain ⟨rule', labels, ends, hrule', -, -, heq⟩ := h.exists_ends hunit
  obtain rfl : rule = rule' := Option.some.inj (hrule.symm.trans hrule')
  exact ⟨congrArg BuildUnit.kind heq, congrArg BuildUnit.compilerFlags heq⟩

/-- A compatible resolution is read off a last walk. -/
theorem exists_isRead {r : Resolver} {rule : Rule} {platform : Platform}
    (h : r.resolveRule rule platform = .ok (.compatible res)) :
    ∃ requested walk,
      IsRead (r.graph rule platform) r.settings.extraFlags requested walk res := by
  obtain ⟨requested, outcome, walk, hlast, hres⟩ := exists_lastWalk h
  cases outcome with
  | incompatible reason => cases hres
  | compatible unit =>
    cases hres
    exact ⟨requested, walk, hlast, rfl, rfl⟩

end

end Resolver

end BuildRules
