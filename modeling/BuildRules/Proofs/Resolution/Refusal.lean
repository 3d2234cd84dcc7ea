import BuildRules.Proofs.Graph.Cycle
import BuildRules.Proofs.Resolution.Verdict
import BuildRules.Proofs.Rule.Table

/-!
# What a refusal tells

A rule of the table is refused with an error that can be checked against the table: a cycle of names
that do lead to each other on one platform, a name that is not defined, or a platform that no
condition matches. A way never comes back from the host, so a cycle of units stays on one platform
and its names tell its units apart. Main statement: `resolve_error_bears`.
-/

namespace BuildRules

open Relation

namespace UnitGraph

variable {g : UnitGraph} {u v : UnitKey} {asked request : NameSet}

/-! ## Ways between platforms -/

/-- A link stays on a platform or goes to the host. -/
theorem Link.platform_eq (h : g.Link u asked v request) :
    v.platform = u.platform ∨ v.platform = g.host := by
  cases h with
  | @intro rule next labels edge hrule hselect hneeds hnext =>
    have hside : g.side rule u.platform = u.platform ∨ g.side rule u.platform = g.host := by
      unfold side
      split
      · exact .inr rfl
      · exact .inl rfl
    have hedge : edge.platform = u.platform ∨ edge.platform = g.host := by
      cases hneeds with
      | dep | label | optional => exact hside
      | procMacro => exact .inr rfl
    unfold place
    dsimp only
    split
    · exact .inr rfl
    · exact hedge

theorem platform_eq_of_transGen (h : TransGen g.Leads u v) :
    v.platform = u.platform ∨ v.platform = g.host := by
  induction h with
  | single hlast =>
    obtain ⟨asked, request, -, hlink⟩ := hlast
    exact hlink.platform_eq
  | tail _ hlast ih =>
    obtain ⟨asked, request, -, hlink⟩ := hlast
    rcases hlink.platform_eq with hstay | hhost
    · rw [hstay]
      exact ih
    · exact .inr hhost

/-- Units that lead to each other are on one platform. -/
theorem platform_eq_of_loop (h : TransGen g.Leads u v) (h' : TransGen g.Leads v u) :
    v.platform = u.platform := by
  rcases platform_eq_of_transGen h with hstay | hhost
  · exact hstay
  · rcases platform_eq_of_transGen h' with hstay' | hhost'
    · exact hstay'.symm
    · rw [hhost, hhost']

/-- The graph stays on the platform that is built for and the host. -/
theorem Has.platform (h : g.Has u) : u.platform = g.platform ∨ u.platform = g.host := by
  obtain ⟨asked, hasked⟩ := h
  exact (mem_unitsNamed_iff.1 hasked.mem_requestable.1).2

/-! ## Links and names -/

/-- What a unit leads to is among the names that its rule may depend on. -/
theorem Link.exists_rule (h : g.Link u asked v request) :
    ∃ rule, g.rule? u = some rule ∧ v.name ∈ rule.common.dependencyNames := by
  cases h with
  | @intro rule next labels edge hrule hselect hneeds hnext =>
    exact ⟨rule, hrule, Target.mem_dependencyNames_of_select hselect hneeds.mem_names⟩

section

variable (hroot : g.table.get? g.root.name = some g.root)

include hroot

theorem rule?_eq_get? (u : UnitKey) : g.rule? u = g.table.get? u.name := by
  unfold rule?
  split
  · next hu =>
    rw [hu]
    exact hroot.symm
  · rfl

theorem Leads.dependsOn (h : g.Leads u v) : g.table.DependsOn u.name v.name := by
  obtain ⟨asked, request, -, hlink⟩ := h
  obtain ⟨rule, hrule, hmem⟩ := hlink.exists_rule
  rw [rule?_eq_get? hroot] at hrule
  exact ⟨rule, hrule, hmem⟩

end

/-! ## Cycles on the way -/

section

variable {requested : Requests} {path : List UnitKey}

theorem Comes.nodup (h : g.Comes requested path u) : path.Nodup := by
  induction h with
  | start => exact List.nodup_nil
  | follow _ hfresh _ ih => exact List.nodup_cons.2 ⟨hfresh, ih⟩

theorem Comes.isChain (h : g.Comes requested path u) (hbacked : g.Backs requested) :
    (u :: path).IsChain fun v u => g.Leads u v := by
  induction h with
  | start => exact .singleton _
  | follow hu _ hv ih =>
    obtain ⟨request, hlink⟩ := hv
    have hleads := (hbacked.leads (hbacked.has_of_reached hu.reached) hlink).1
    exact List.isChain_cons_cons.2 ⟨hleads, ih⟩

/-- A way that comes back to a unit makes a cycle of the graph. -/
theorem Comes.isCycle (h : g.Comes requested path u) (hbacked : g.Backs requested)
    (hu : u ∈ path) : IsCycle g.Leads (closePath path u) :=
  isCycle_closePath h.nodup (h.isChain hbacked) hu

end

/-- The names of a cycle of units make a cycle on the platform of its units. -/
theorem isCycle_names {cycle : List UnitKey} (h : IsCycle g.Leads cycle) (hu : u ∈ cycle) :
    IsCycle (fun x y => g.Leads ⟨x, u.platform⟩ ⟨y, u.platform⟩) (cycle.map UnitKey.name) := by
  apply h.map fun name => ⟨name, u.platform⟩
  intro v hv
  rw [← platform_eq_of_loop (h.transGen hu hv) (h.transGen hv hu)]

/-! ## True errors -/

variable (g)

/-- A way from a rule back to itself, on one platform and through other rules. -/
structure IsNamedCycle (path : List String) (platform : Platform) : Prop where
  platform_eq : platform = g.platform ∨ platform = g.host
  closed : ∃ first between, path = first :: (between ++ [first]) ∧ between ≠ [] ∧
    (first :: between).Nodup
  chain : path.IsChain fun x y =>
    g.Leads ⟨x, platform⟩ ⟨y, platform⟩ ∧ g.table.DependsOn x y

/-- What an error says of the rules below the root is so. -/
def Bears : RuleError → Prop
  | .cycle path => ∃ platform, g.IsNamedCycle path platform
  | .undefinedDependency target dependency =>
    ∃ u, ReflTransGen g.Leads g.rootKey u ∧ u.name = target ∧
      g.table.DependsOn target dependency ∧ g.table.get? dependency = none
  | .noMatchingCondition target platform =>
    ∃ u rule map, ReflTransGen g.Leads g.rootKey u ∧ u.name = target ∧
      (u.platform = g.platform ∨ u.platform = g.host) ∧ u.platform.text = platform ∧
      g.table.get? target = some rule ∧ rule.common.constraints = some map ∧
      map.entries.get? u.platform = none ∧ map.fallback = none
  | _ => False

variable {g}

theorem isNamedCycle_of_isCycle {cycle : List UnitKey}
    (hroot : g.table.get? g.root.name = some g.root) (h : IsCycle g.Leads cycle)
    (hu : u ∈ cycle) : g.IsNamedCycle (cycle.map UnitKey.name) u.platform := by
  have hnames := isCycle_names h hu
  have hchain : (cycle.map UnitKey.name).IsChain fun x y =>
      g.Leads ⟨x, u.platform⟩ ⟨y, u.platform⟩ ∧ g.table.DependsOn x y :=
    hnames.chain.imp fun x y hleads => ⟨hleads, hleads.dependsOn hroot⟩
  have hhas : g.Has u := by
    obtain ⟨_, _, hlast⟩ := TransGen.tail'_iff.1 (h.transGen hu hu)
    exact hlast.has
  refine ⟨hhas.platform, ?_, hchain⟩
  obtain ⟨first, between, hcycle, hnodup⟩ := hnames.closed
  refine ⟨first, between, hcycle, ?_, hnodup⟩
  -- no rule of a table depends on itself
  rintro rfl
  rw [hcycle] at hchain
  exact RuleTable.not_dependsOn_self first (List.isChain_pair.1 hchain).2

theorem Backs.bears {requested : Requests} {e : RuleError} (h : g.Backs requested)
    (hroot : g.table.get? g.root.name = some g.root) (hrefused : g.Refused requested e) :
    g.Bears e := by
  cases hrefused with
  | @undefined u rule labels name hu hrule hselect hname hmissing =>
    have hreach := has_iff_reflTransGen.1 (h.has_of_reached hu)
    refine ⟨u, hreach, (name_of_rule? hrule).symm, ?_, hmissing⟩
    rw [rule?_eq_get? hroot] at hrule
    rw [RuleTable.name_of_get? hrule]
    exact ⟨rule, hrule, Target.mem_dependencyNames_of_select hselect hname⟩
  | @unmatched u rule hu hrule hselect =>
    have hhas := h.has_of_reached hu
    obtain ⟨rule', map, hrule', hmap, hentry, hfallback⟩ := (unmatched_iff hrule).2 hselect
    refine ⟨u, rule', map, has_iff_reflTransGen.1 hhas, (name_of_rule? hrule).symm, hhas.platform,
      rfl, ?_, hmap, hentry, hfallback⟩
    rw [rule?_eq_get? hroot] at hrule hrule'
    rw [RuleTable.name_of_get? hrule]
    exact hrule'
  | @cycle path u hpath hu =>
    exact ⟨u.platform, isNamedCycle_of_isCycle hroot (hpath.isCycle h hu) List.mem_cons_self⟩

end UnitGraph

namespace Resolver

variable {r : Resolver} {rule : Rule} {platform : Platform} {e : RuleError}

theorem bears_of_resolveRule (hrule : r.table.get? rule.name = some rule)
    (h : r.resolveRule rule platform = .error e) : (r.graph rule platform).Bears e := by
  obtain ⟨requested, hbacked, hrefused⟩ := exists_refused h
  exact hbacked.bears hrule hrefused

/-- When a rule of the table cannot be resolved the error is true. A cycle is one of rules that lead
to each other on the platform built for or on the host; a missing dependency is listed by a rule
below the one resolved; and where no condition matches, that is so of a rule below the one resolved.
There are no other errors. -/
theorem resolve_error_bears {name : String} (hrule : r.table.get? name = some rule)
    (h : r.resolve name platform = .error e) : (r.graph rule platform).Bears e := by
  rw [resolve_of_get? hrule] at h
  have hname : rule.name = name := RuleTable.name_of_get? hrule
  exact bears_of_resolveRule (hname ▸ hrule) h

/-- A library that asks `mid` for a feature. -/
def ringed : Rule :=
  .target { Target.library "app" with features := .ofList ["mid/loop"], deps := ["mid"] }

/-- A table with a cycle that a feature of `mid` closes. -/
def ring : Resolver where
  table :=
    ⟨.ofList
      [ ("app", ringed),
        ("mid", .target
          { Target.library "mid" with
            featureMap := .ofList [("loop", ["dep:app"])]
            optionalDeps := ["app"] }) ],
      by decide +kernel⟩
  settings := {}
  host? := none

/-- Only the second walk knows of the feature and finds the cycle. -/
theorem resolve_error_bears_ring :
    ring.table.get? "app" = some ringed ∧
      ring.resolve "app" ⟨"linux"⟩ = .error (.cycle ["app", "mid", "app"]) ∧
      (ring.graph ringed ⟨"linux"⟩).Bears (.cycle ["app", "mid", "app"]) := by
  have hrule : ring.table.get? "app" = some ringed := by decide +kernel
  have hresolve : ring.resolve "app" ⟨"linux"⟩ = .error (.cycle ["app", "mid", "app"]) := by
    decide +kernel
  exact ⟨hrule, hresolve, resolve_error_bears hrule hresolve⟩

end Resolver

end BuildRules
