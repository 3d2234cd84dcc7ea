import BuildRules.Proofs.Resolution.Verdict

/-!
# Reasons

Why a rule is incompatible is told as a chain of units. Each of them is blocked by the next one,
which stands at the end of its first edge to an incompatible unit, and the last one by its own
constraints. The features are those that all walks together ask for, so an edge that a later walk
finds takes its place in the order. Main statement: `reason_genuine`.
-/

namespace BuildRules

open Relation

/-! ## Chains -/

/-- The units that a reason tells of, from the one it explains to the one that decided. -/
def Reason.chain : Reason → List UnitKey
  | condition target platform _ => [⟨target, platform⟩]
  | dependency target platform reason => ⟨target, platform⟩ :: reason.chain

theorem Reason.chain_ne_nil (reason : Reason) : reason.chain ≠ [] := by
  cases reason <;> simp [chain]

namespace UnitGraph

variable (g : UnitGraph)

/-! ## What blocks a unit -/

/-- The edges of a rule that takes part, in the order in which they are walked. They depend on the
host, but not on the flags and the requests of a walk. -/
def edges (rule : Rule) (platform : Platform) (labels : List String)
    (features : FeatureSelection) : List Edge :=
  (g.setting [] ∅).openEdges rule platform labels features

/-- The unit leads to a barred one, or is barred itself. -/
def Incompatible (u : UnitKey) : Prop := ∃ v, ReflTransGen g.Leads u v ∧ g.Barred v

/-- All that the graph asks of a unit. -/
structure IsUnified (u : UnitKey) (asked : NameSet) : Prop where
  isAsked : g.Asked u asked
  greatest : ∀ asked', g.Asked u asked' → asked' ⊆ asked

/-- A unit takes part, and another one is at the end of the first of its edges that lead to an
incompatible unit. -/
inductive FirstBlocked : UnitKey → UnitKey → Prop
  | intro {u : UnitKey} {rule next : Rule} {labels : List String} {asked : NameSet}
      {before after : List Edge} {edge : Edge}
      (hrule : g.rule? u = some rule)
      (hselect : rule.common.select u.platform = some (.compatible labels))
      (hasked : g.IsUnified u asked)
      (hedges : g.edges rule u.platform labels (rule.common.featuresFor asked) =
        before ++ edge :: after)
      (hnext : g.table.get? edge.name = some next)
      (hblocked : g.Incompatible (g.place edge next))
      (hbefore : ∀ edge' ∈ before, ∀ next', g.table.get? edge'.name = some next' →
        ¬ g.Incompatible (g.place edge' next')) :
      FirstBlocked u (g.place edge next)

/-- A reason that is read off the graph. -/
inductive Explains : UnitKey → Reason → Prop
  | condition {u : UnitKey} {rule : Rule} {viaFallback : Bool} (hrule : g.rule? u = some rule)
      (hselect : rule.common.select u.platform = some (.incompatible viaFallback)) :
      Explains u (.condition u.name u.platform viaFallback)
  | dependency {u v : UnitKey} {reason : Reason} (hfirst : g.FirstBlocked u v)
      (hreason : Explains v reason) : Explains u (.dependency u.name u.platform reason)

section

variable {g} {u v : UnitKey} {reason : Reason}

theorem FirstBlocked.leads (h : g.FirstBlocked u v) : g.Leads u v := by
  cases h with
  | @intro rule next labels asked before after edge hrule hselect hasked hedges hnext =>
    have hmem : edge ∈ g.edges rule u.platform labels (rule.common.featuresFor asked) := by
      rw [hedges]
      exact List.mem_append_right _ List.mem_cons_self
    exact ⟨asked, _, hasked.isAsked, .intro hrule hselect (Walk.mem_openEdges_iff.1 hmem) hnext⟩

theorem FirstBlocked.not_barred (h : g.FirstBlocked u v) : ¬ g.Barred u := by
  intro hbarred
  cases h with
  | intro hrule hselect =>
    obtain ⟨viaFallback, hselect'⟩ := (barred_iff hrule).1 hbarred
    rw [hselect] at hselect'
    cases hselect'

/-! ## Explanations -/

theorem Explains.head?_chain (h : g.Explains u reason) : reason.chain.head? = some u := by
  cases h <;> rfl

theorem Explains.incompatible (h : g.Explains u reason) : g.Incompatible u := by
  induction h with
  | @condition u rule viaFallback hrule hselect =>
    exact ⟨u, .refl, (barred_iff hrule).2 ⟨viaFallback, hselect⟩⟩
  | dependency hfirst _ ih =>
    obtain ⟨w, hway, hbarred⟩ := ih
    exact ⟨w, .head hfirst.leads hway, hbarred⟩

theorem Explains.isChain (h : g.Explains u reason) : reason.chain.IsChain g.FirstBlocked := by
  induction h with
  | condition => exact .singleton _
  | dependency hfirst hreason ih =>
    refine List.isChain_cons.2 ⟨fun w hw => ?_, ih⟩
    rw [hreason.head?_chain, Option.mem_some_iff] at hw
    exact hw ▸ hfirst

theorem Explains.not_barred (h : g.Explains u reason) :
    ∀ w ∈ reason.chain.dropLast, ¬ g.Barred w := by
  induction h with
  | condition => simp [Reason.chain]
  | @dependency u v reason hfirst _ ih =>
    rw [Reason.chain, List.dropLast_cons_of_ne_nil reason.chain_ne_nil]
    intro w hw
    rcases List.mem_cons.1 hw with rfl | hw
    · exact hfirst.not_barred
    · exact ih w hw

/-- The reason at the end is that of the last unit. -/
theorem Explains.root (h : g.Explains u reason) :
    ∃ w rule viaFallback, reason.chain.getLast? = some w ∧
      reason.root = .condition w.name w.platform viaFallback ∧ g.rule? w = some rule ∧
      rule.common.select w.platform = some (.incompatible viaFallback) := by
  induction h with
  | @condition u rule viaFallback hrule hselect =>
    exact ⟨u, rule, viaFallback, rfl, rfl, hrule, hselect⟩
  | @dependency u v reason _ _ ih =>
    obtain ⟨w, rule, viaFallback, hlast, hroot, hrule, hselect⟩ := ih
    refine ⟨w, rule, viaFallback, ?_, hroot, hrule, hselect⟩
    rw [Reason.chain, List.getLast?_cons, hlast, Option.getD_some]

/-- Where the graph has no cycle an explanation comes to an end. -/
theorem Explains.nodup (h : g.Explains u reason) (hacyclic : ∀ w, ¬ TransGen g.Leads w w) :
    reason.chain.Nodup := by
  have hways : reason.chain.IsChain (TransGen g.Leads) :=
    h.isChain.imp fun _ _ hfirst => .single hfirst.leads
  refine hways.pairwise.imp fun {a b} hway heq => ?_
  exact hacyclic a (heq ▸ hway)

end

/-- A reason tells truly why the root is incompatible. -/
structure IsGenuine (reason : Reason) : Prop where
  head : reason.chain.head? = some g.rootKey
  nodup : reason.chain.Nodup
  chain : reason.chain.IsChain g.FirstBlocked
  not_barred : ∀ u ∈ reason.chain.dropLast, ¬ g.Barred u
  root : ∃ u rule map labels viaFallback, reason.chain.getLast? = some u ∧
    reason.root = .condition u.name u.platform viaFallback ∧ g.rule? u = some rule ∧
    rule.common.constraints = some map ∧ map.lookup u.platform = some (labels, viaFallback) ∧
    incompatibleLabel ∈ labels ∧ (viaFallback = true ↔ map.entries.get? u.platform = none)

variable {g} in
theorem Explains.isGenuine {reason : Reason} (h : g.Explains g.rootKey reason)
    (hacyclic : ∀ w, ¬ TransGen g.Leads w w) : g.IsGenuine reason where
  head := h.head?_chain
  nodup := h.nodup hacyclic
  chain := h.isChain
  not_barred := h.not_barred
  root := by
    obtain ⟨u, rule, viaFallback, hlast, hroot, hrule, hselect⟩ := h.root
    obtain ⟨map, labels, hmap, hlookup, hmem⟩ := Target.select_eq_incompatible_iff.1 hselect
    exact ⟨u, rule, map, labels, viaFallback, hlast, hroot, hrule, hmap, hlookup, hmem,
      ConstraintMap.viaFallback_iff_of_lookup hlookup⟩

end UnitGraph

namespace Resolver

section

variable {g : UnitGraph} {flags : List String} {requested : Requests}
variable {outcome : Walk.Outcome} {walk : Walk} {u : UnitKey} {rule : Rule}

/-- The requests of all walks are what the graph asks. -/
theorem LastWalk.isUnified (h : LastWalk g flags requested outcome walk) (hu : g.Has u) :
    g.IsUnified u (requested.asked u) where
  isAsked := by
    obtain ⟨asked, hasked, hsubset⟩ := hu.asked_together (h.backed u)
    rwa [SortedSet.Subset.antisymm hsubset (h.asked hasked).2]
  greatest _ hasked := (h.asked hasked).2

theorem LastWalk.not_incompatible {unit : BuildUnit} (h : LastWalk g flags requested outcome walk)
    (hu : walk.done.get? u = some (.compatible unit)) : ¬ g.Incompatible u := by
  rintro ⟨v, hway, hbarred⟩
  obtain ⟨unit', hunit'⟩ := h.compatible_of_reflTransGen hu hway
  exact h.not_barred_of_done hunit' hbarred

/-- The first incompatible end of a unit is at the first edge that leads to an incompatible unit. -/
theorem LastWalk.firstBlocked {labels : List String} {before after : List Walk.End} {e : Walk.End}
    (h : LastWalk g flags requested outcome walk) (hu : g.Has u) (hrule : g.rule? u = some rule)
    (hends : Walk.EndsOf (g.setting flags requested) rule u.platform labels (before ++ e :: after))
    (hbefore : ∀ e' ∈ before, ∃ unit,
      walk.done.get? (g.place e'.edge e'.rule) = some (.compatible unit))
    (hblocked : g.Incompatible (g.place e.edge e.rule)) :
    g.FirstBlocked u (g.place e.edge e.rule) := by
  have hedges := hends.edges
  rw [Walk.features_setting hrule, List.map_append, List.map_cons] at hedges
  have hnext := hends.rules e (List.mem_append_right _ List.mem_cons_self)
  refine .intro hrule hends.select (h.isUnified hu) hedges.symm hnext hblocked ?_
  intro edge' hedge' next' hnext'
  obtain ⟨e', he', rfl⟩ := List.mem_map.1 hedge'
  have hrule' : g.table.get? e'.edge.name = some e'.rule :=
    hends.rules e' (List.mem_append_left _ he')
  obtain rfl : e'.rule = next' := Option.some.inj (hrule'.symm.trans hnext')
  obtain ⟨unit, hunit⟩ := hbefore e' he'
  exact h.not_incompatible hunit

/-- The reason that the last walk gives for a unit explains it. -/
theorem LastWalk.explains {reason : Reason} (h : LastWalk g flags requested outcome walk)
    (hu : walk.done.get? u = some (.incompatible reason)) : g.Explains u reason := by
  induction reason generalizing u with
  | condition target platform viaFallback =>
    obtain ⟨rule, hrule, hsettled⟩ := h.sound.settled u _ hu
    rcases hsettled.blocked hrule with ⟨_, hselect, heq⟩ | ⟨_, _, _, _, _, -, -, -, heq⟩
    · cases heq
      exact .condition hrule hselect
    · cases heq
  | dependency target platform reason ih =>
    obtain ⟨rule, hrule, hsettled⟩ := h.sound.settled u _ hu
    rcases hsettled.blocked hrule with ⟨_, -, heq⟩ | ⟨_, _, _, _, _, hends, hbefore, hdone, heq⟩
    · cases heq
    · cases heq
      have hexplains := ih hdone
      have hhas : g.Has u := h.done_iff.1 ⟨_, hu⟩
      exact .dependency (h.firstBlocked hhas hrule hends hbefore hexplains.incompatible) hexplains

end

/-- The reason why a rule is incompatible is genuine. It leads from the rule along the first edges
that are blocked, under the features that all walks together ask for, to a unit whose constraints
select the incompatible label. -/
theorem reason_genuine {r : Resolver} {rule : Rule} {platform : Platform} {reason : Reason}
    (h : r.resolveRule rule platform = .ok (.incompatible reason)) :
    (r.graph rule platform).IsGenuine reason := by
  obtain ⟨requested, outcome, walk, hlast, hreason⟩ := exists_lastWalk h
  cases outcome with
  | compatible unit => cases hreason
  | incompatible reason' =>
    cases hreason
    exact (hlast.explains hlast.done).isGenuine fun w => hlast.acyclic

/-- A table where `mid` runs `derive` and with a feature needs `gpu`, neither of which fits any
platform. -/
def gated : Resolver where
  table :=
    ⟨.ofList
      [ ("derive", .target
          { Target.library "derive" with
            kind := .procMacro
            constraints := some (.compatibleWith []) }),
        ("gpu", .target
          { Target.library "gpu" with constraints := some (.compatibleWith []) }),
        ("mid", .target
          { Target.library "mid" with
            featureMap := .ofList [("fast", ["dep:gpu"])]
            optionalDeps := ["gpu"]
            procMacroDeps := ["derive"] }) ],
      by decide +kernel⟩
  settings := {}
  host? := none

/-- A library that asks `mid` for the feature with which it needs `gpu`. -/
def hurried : Rule :=
  .target { Target.library "app" with features := .ofList ["mid/fast"], deps := ["mid"] }

/-- In the first walk `derive` blocks `mid`. In the second one `gpu` does, as the edge to it comes
first. -/
theorem reason_genuine_gated :
    gated.resolveRule hurried ⟨"linux"⟩ =
        .ok (.incompatible (.dependency "app" ⟨"linux"⟩ (.dependency "mid" ⟨"linux"⟩
          (.condition "gpu" ⟨"linux"⟩ true)))) ∧
      (gated.graph hurried ⟨"linux"⟩).IsGenuine (.dependency "app" ⟨"linux"⟩
        (.dependency "mid" ⟨"linux"⟩ (.condition "gpu" ⟨"linux"⟩ true))) := by
  have hresolve : gated.resolveRule hurried ⟨"linux"⟩ =
      .ok (.incompatible (.dependency "app" ⟨"linux"⟩ (.dependency "mid" ⟨"linux"⟩
        (.condition "gpu" ⟨"linux"⟩ true)))) := by
    decide +kernel
  exact ⟨hresolve, reason_genuine hresolve⟩

end Resolver

end BuildRules
