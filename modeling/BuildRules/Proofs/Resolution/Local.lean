import BuildRules.Proofs.Resolution.Part

/-!
# What a resolution depends on

A walk looks up what the units of the graph need and nothing else, in early rounds as in the last
one. So a resolved target depends on the rules of its closure, and on which optional dependencies
the table lacks. Main statement: `resolve_local`.
-/

namespace BuildRules

open Relation

/-- Another table keeps what a resolved target is made of. -/
structure Resolved.IsKept (res : Resolved) (table table' : RuleTable) : Prop where
  get?_eq : ∀ name ∈ res.closureNames, table'.get? name = table.get? name
  /-- Optional dependencies are looked up even where they do not take part. -/
  optional : ∀ d ∈ res.rule.common.optionalDeps, d ∈ res.closureNames ∨ table'.get? d ≠ none
  optional_closure : ∀ name ∈ res.closureNames, ∀ rule ∈ table.get? name,
    ∀ d ∈ rule.common.optionalDeps, d ∈ res.closureNames ∨ table'.get? d ≠ none

/-- Another table has the rules of the units below the root, and lacks none of the optional
dependencies of any unit. -/
structure UnitGraph.IsOver (g : UnitGraph) (table : RuleTable) : Prop where
  get?_eq : ∀ u, g.Has u → u ≠ g.rootKey → table.get? u.name = g.table.get? u.name
  optional : ∀ u rule, g.Has u → g.rule? u = some rule →
    ∀ d ∈ rule.common.optionalDeps, table.get? d ≠ none

theorem Walk.refuse_injective {α : Type} {x y : Except RuleError α} (h : refuse x = refuse y) :
    x = y := by
  cases x <;> cases y <;> cases h <;> rfl

namespace Resolver

section

variable {g : UnitGraph} {flags : List String} {requested requested' : Requests}
variable {outcome : Walk.Outcome} {walk walk' : Walk} {table : RuleTable} {u : UnitKey}
variable {rule : Rule} {platform : Platform}

/-! ## One walk -/

/-- All that a unit which takes part names is in the table. -/
theorem LastWalk.get?_ne_none (h : LastWalk g flags requested outcome walk) (hu : g.Has u)
    (hrule : g.rule? u = some rule) {labels : List String}
    (hselect : rule.common.select u.platform = some (.compatible labels)) {name : String}
    (hname : name ∈ rule.common.declaredDeps ++ labels) : g.table.get? name ≠ none := by
  intro hmissing
  apply h.not_faulty
  exact .inl ⟨u, hu, .inl ⟨rule, labels, name, hrule, hselect, hname, hmissing⟩⟩

/-- A visit with requests of the graph cannot tell the tables apart. -/
theorem LastWalk.visit_eq (h : LastWalk g flags requested outcome walk) (hover : g.IsOver table)
    (hbacked : g.Backs requested') (depth : Nat) (path : List UnitKey)
    (hu : g.Has ⟨rule.name, platform⟩) (hrule : g.rule? ⟨rule.name, platform⟩ = some rule) :
    Walk.visit (g.setting flags requested') depth path rule platform walk' =
      Walk.visit ((g.withTable table).setting flags requested') depth path rule platform walk' := by
  induction depth generalizing path rule platform walk' with
  | zero => rfl
  | succ depth ih =>
    apply Walk.visitFrom_congr
    intro _ labels hselect
    have hdefined : ∀ name ∈ rule.common.declaredDeps ++ labels, g.table.get? name ≠ none :=
      fun _ => h.get?_ne_none hu hrule hselect
    -- what stands at the end of an edge is a unit of the graph, but not its root
    have hend : ∀ edge next, g.Needs rule platform labels
        ((g.setting flags requested').features rule.common platform) edge →
        g.table.get? edge.name = some next →
          g.Has (g.place edge next) ∧ g.place edge next ≠ g.rootKey := by
      intro edge next hneeds hnext
      rw [Walk.features_setting hrule] at hneeds
      have hleads := (hbacked.leads hu (.intro hrule hselect hneeds hnext)).1
      exact ⟨hleads.has, fun heq => h.not_leads_rootKey (heq ▸ hleads)⟩
    refine ⟨fun d hd => ?_, fun edge hneeds => ?_, fun edge next hneeds hnext walk => ?_⟩
    · -- neither table lacks an optional dependency, whether features ask for it or not
      have hname := hdefined d (List.mem_append_left _ (List.mem_append_right _ hd))
      have hname' := hover.optional _ rule hu hrule d hd
      rw [Option.isNone_eq_false_iff.2 (Option.isSome_iff_ne_none.2 hname'),
        Option.isNone_eq_false_iff.2 (Option.isSome_iff_ne_none.2 hname)]
    · obtain ⟨next, hnext⟩ := Option.ne_none_iff_exists'.1 (hdefined _ hneeds.mem_names)
      obtain ⟨hhas, hne⟩ := hend edge next hneeds hnext
      exact hover.get?_eq _ hhas hne
    · obtain ⟨hhas, hne⟩ := hend edge next hneeds hnext
      have hkey : (⟨next.name, (g.place edge next).platform⟩ : UnitKey) = g.place edge next := by
        rw [show next.name = edge.name from RuleTable.name_of_get? hnext]
        rfl
      apply ih
      · rw [hkey]
        exact hhas
      · rw [hkey, UnitGraph.rule?, if_neg hne]
        exact hnext

end

/-! ## All rounds -/

section

variable {r : Resolver} {rule : Rule} {platform : Platform} {table : RuleTable}
variable {requested requested' : Requests} {outcome : Walk.Outcome} {walk : Walk}

/-- Any more depth than a walk is granted changes nothing. -/
theorem visit_eq_of_depthBound_le (r : Resolver) (rule : Rule) (platform : Platform)
    (requested : Requests) {depth : Nat} (hdepth : r.depthBound ≤ depth) :
    Walk.visit (r.setting platform requested) r.depthBound [] rule platform {} =
      Walk.visit (r.setting platform requested) depth [] rule platform {} := by
  have hbound := r.card_units_lt rule platform
  rw [r.walk_eq_visitOn rule platform requested hbound,
    r.walk_eq_visitOn rule platform requested (Nat.lt_of_lt_of_le hbound hdepth)]

theorem LastWalk.settle_eq
    (h : LastWalk (r.graph rule platform) r.settings.extraFlags requested outcome walk)
    (hover : (r.graph rule platform).IsOver table)
    (hbacked : (r.graph rule platform).Backs requested') (rounds : Nat) :
    r.settle rule platform rounds requested' =
      { r with table }.settle rule platform rounds requested' := by
  induction rounds generalizing requested' with
  | zero => rfl
  | succ rounds ih =>
    -- the tables may differ in size, and so may the depths that walks over them are granted
    have hwalk : Walk.visit (r.setting platform requested') r.depthBound [] rule platform {} =
        Walk.visit ({ r with table }.setting platform requested') { r with table }.depthBound []
          rule platform {} := by
      rw [r.visit_eq_of_depthBound_le rule platform requested' (Nat.le_add_right _ _),
        visit_eq_of_depthBound_le { r with table } rule platform requested' (Nat.le_add_left _ _)]
      exact h.visit_eq hover hbacked _ [] UnitGraph.has_rootKey (UnitGraph.rule?_rootKey _)
    rw [settle, settle, ← hwalk]
    apply (r.visit_root_meets rule platform requested' r.depthBound).bind_congr
    intro result hvisited
    dsimp only
    split
    · rfl
    · exact ih (hbacked.merge hvisited.sound)

/-- Resolving cannot tell the tables apart. -/
theorem LastWalk.resolveRule_eq
    (h : LastWalk (r.graph rule platform) r.settings.extraFlags requested outcome walk)
    (hover : (r.graph rule platform).IsOver table) :
    { r with table }.resolveRule rule platform = r.resolveRule rule platform := by
  have hsettle := h.settle_eq hover (UnitGraph.backs_empty _)
    (r.roundBound rule + { r with table }.roundBound rule)
  rw [r.settle_roundBound rule platform, Nat.add_comm,
    settle_roundBound { r with table } rule platform] at hsettle
  exact Walk.refuse_injective hsettle.symm

theorem IsRead.isOver {g : UnitGraph} {flags : List String} {res : Resolved}
    (h : IsRead g flags requested walk res) (hkept : res.IsKept g.table table) : g.IsOver table := by
  have hname : ∀ u, g.Has u → u ≠ g.rootKey → u.name ∈ res.closureNames := by
    intro u hu hne
    obtain ⟨unit, hunit, rfl⟩ := h.has_iff.1 hu
    exact List.mem_map_of_mem (h.mem_closure_iff.2 ⟨hunit, hne⟩)
  have hdefined : ∀ d, d ∈ res.closureNames ∨ table.get? d ≠ none → table.get? d ≠ none := by
    rintro d (hd | hd)
    · rw [hkept.get?_eq d hd]
      obtain ⟨unit, hunit, rfl⟩ := List.mem_map.1 hd
      obtain ⟨next, hnext, -⟩ := h.exists_isBelow hunit
      simp [hnext]
    · exact hd
  refine ⟨fun u hu hne => hkept.get?_eq _ (hname u hu hne), fun u rule hu hrule d hd => ?_⟩
  apply hdefined
  by_cases hroot : u = g.rootKey
  · rw [hroot, UnitGraph.rule?_rootKey, ← h.rule] at hrule
    cases hrule
    exact hkept.optional d hd
  · rw [UnitGraph.rule?, if_neg hroot] at hrule
    exact hkept.optional_closure _ (hname u hu hroot) rule hrule d hd

/-- A table that keeps what a resolved target is made of gives the same resolved target, whatever
else it holds. -/
theorem resolve_local {res : Resolved}
    (h : r.resolveRule rule platform = .ok (.compatible res)) (hkept : res.IsKept r.table table) :
    { r with table }.resolveRule rule platform = .ok (.compatible res) := by
  obtain ⟨requested, walk, hread⟩ := exists_isRead h
  rw [hread.last.resolveRule_eq (hread.isOver hkept), h]

end

/-- A table with a library that is needed and one that may be. -/
def spare : Resolver where
  table :=
    ⟨.ofList [("base", .target (.library "base")), ("extra", .target (.library "extra"))],
      by decide +kernel⟩
  settings := {}
  host? := none

/-- A library with an optional dependency that no feature asks for. -/
def sparing : Rule :=
  .target { Target.library "app" with deps := ["base"], optionalDeps := ["extra"] }

def spareResult : Resolved where
  rule := sparing
  unit :=
    { key := ⟨"app", ⟨"linux"⟩⟩, kind := .library, features := ∅, compilerFlags := []
      deps := [⟨"base", ⟨"linux"⟩⟩], scriptEnv := ∅, aliases := ∅ }
  closure :=
    [ { key := ⟨"base", ⟨"linux"⟩⟩, kind := .library, features := ∅, compilerFlags := []
        deps := [], scriptEnv := ∅, aliases := ∅ } ]

/-- The table of `spare` with two rules that cannot be resolved. -/
def crowded : RuleTable :=
  ⟨.ofList
    [ ("app", .target { Target.library "app" with deps := ["missing"] }),
      ("base", .target (.library "base")),
      ("extra", .target { Target.library "extra" with deps := ["missing"] }) ],
    by decide +kernel⟩

theorem resolve_local_crowded :
    spareResult.IsKept spare.table crowded ∧
      { spare with table := crowded }.resolveRule sparing ⟨"linux"⟩ =
        .ok (.compatible spareResult) := by
  have hspare : spare.resolveRule sparing ⟨"linux"⟩ = .ok (.compatible spareResult) := by
    decide +kernel
  have hkept : spareResult.IsKept spare.table crowded :=
    ⟨by decide +kernel, by decide +kernel, by decide +kernel⟩
  exact ⟨hkept, resolve_local hspare hkept⟩

/-- A table that lacks the optional dependency does not do. -/
example : { spare with table := ⟨.ofList [("base", .target (.library "base"))], by decide +kernel⟩
    }.resolveRule sparing ⟨"linux"⟩ = .error (.undefinedDependency "app" "extra") := by
  decide +kernel

end Resolver

end BuildRules
