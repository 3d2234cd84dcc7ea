import BuildRules.Proofs.Resolution.Resolved

/-!
# Closures

The closure of a resolved target holds the units that can be reached from the target, each once and
each after those that it depends on. Main statement: `closure_exact`.
-/

namespace BuildRules

open Relation

/-! ## Orders of units -/

namespace Walk

variable {done : SortedMap UnitKey Outcome} {l : List UnitKey}

theorem Ordered.nodup (h : Ordered done l) : l.Nodup := by
  induction h with
  | nil => exact List.nodup_nil
  | @concat l u _ _ hfresh _ _ ih =>
    apply List.Nodup.append ih (List.nodup_singleton u)
    intro w hw hsingle
    obtain rfl := List.mem_singleton.1 hsingle
    exact hfresh hw

/-- Wherever a unit stands in the order, what it depends on stands before it. -/
theorem Ordered.deps_of_split (h : Ordered done l) {before after : List UnitKey} {u : UnitKey}
    (hsplit : l = before ++ u :: after) :
    ∃ unit, done.get? u = some (.compatible unit) ∧ ∀ d ∈ unit.deps, d ∈ before := by
  induction h generalizing after with
  | nil => simp at hsplit
  | @concat l w unit _ _ hdone hdeps ih =>
    -- the unit is the last one of the order, or it was there before
    rcases List.eq_nil_or_concat after with rfl | ⟨after, last, rfl⟩
    · obtain ⟨rfl, hlast⟩ := List.append_inj' hsplit rfl
      cases hlast
      exact ⟨unit, hdone, hdeps⟩
    · rw [List.concat_eq_append, ← List.cons_append, ← List.append_assoc] at hsplit
      exact ih (List.append_inj' hsplit rfl).1

end Walk

/-! ## The closure -/

namespace Resolved

variable (res : Resolved)

/-- One step down from a unit of a resolved target. -/
def DependsOn (u v : UnitKey) : Prop :=
  ∃ unit ∈ res.unit :: res.closure, unit.key = u ∧ v ∈ unit.deps

/-- The closure is exact and in order. -/
structure HasExactClosure : Prop where
  nodup : (res.closure.map BuildUnit.key).Nodup
  root_not_mem : res.unit.key ∉ res.closure.map BuildUnit.key
  mem_iff : ∀ u, u ∈ res.closure.map BuildUnit.key ↔ TransGen res.DependsOn res.unit.key u
  deps_before : ∀ i (hi : i < res.closure.length), ∀ d ∈ res.closure[i].deps,
    ∃ j, ∃ hj : j < i, res.closure[j].key = d
  root_deps : ∀ d ∈ res.unit.deps, d ∈ res.closure.map BuildUnit.key

end Resolved

namespace Resolver

section

variable {g : UnitGraph} {flags : List String} {requested : Requests} {walk : Walk}
variable {res : Resolved} {u v : UnitKey}

theorem IsRead.dependsOn_iff (h : IsRead g flags requested walk res) :
    res.DependsOn u v ↔ g.Leads u v := by
  constructor
  · intro hdepends
    obtain ⟨unit, hunit, rfl, hdep⟩ := hdepends
    exact ((h.of_mem hunit).2 v).1 hdep
  · intro hleads
    have ⟨asked, _, hasked, _⟩ := hleads
    obtain ⟨unit, hunit, rfl⟩ := h.has_iff.1 ⟨asked, hasked⟩
    exact ⟨unit, hunit, rfl, ((h.of_mem hunit).2 v).2 hleads⟩

theorem IsRead.dependsOn_eq (h : IsRead g flags requested walk res) : res.DependsOn = g.Leads := by
  funext u v
  exact propext h.dependsOn_iff

/-- The keys of a closure stand in the order of the last walk. -/
theorem IsRead.keys_eq (h : IsRead g flags requested walk res) :
    res.closure.map BuildUnit.key = walk.order.filter (· ≠ g.rootKey) := by
  rw [h.closure, h.key_eq]
  unfold Walk.unitsBut
  rw [List.map_filterMap]
  refine (List.filterMap_congr ?_).trans List.filterMap_some
  intro u hu
  obtain ⟨unit, hunit⟩ := h.last.sound.ordered.done_of_mem (List.mem_filter.1 hu).1
  simp only [hunit]
  exact congrArg some (h.last.sound.key_eq u unit hunit)

/-- The closure holds what can be reached from the root by one step or more. -/
theorem IsRead.mem_keys_iff (h : IsRead g flags requested walk res) :
    u ∈ res.closure.map BuildUnit.key ↔ TransGen g.Leads g.rootKey u := by
  have hhas : u ∈ res.closure.map BuildUnit.key ↔ g.Has u ∧ u ≠ g.rootKey := by
    rw [h.keys_eq, List.mem_filter, decide_eq_true_iff]
    refine and_congr_left fun _ => ⟨fun horder => ?_, fun hu => ?_⟩
    · obtain ⟨unit, hunit⟩ := h.last.sound.ordered.done_of_mem horder
      exact h.last.done_iff.1 ⟨_, hunit⟩
    · obtain ⟨unit, hunit⟩ := h.last.compatible_of_has hu
      exact h.last.sound.listed u unit hunit
  rw [hhas, UnitGraph.has_iff_reflTransGen, reflTransGen_iff_eq_or_transGen]
  constructor
  · intro hways
    rcases hways with ⟨heq | hreach, hne⟩
    · exact absurd heq hne
    · exact hreach
  · intro hreach
    refine ⟨.inr hreach, fun heq => ?_⟩
    rw [heq] at hreach
    exact h.last.acyclic hreach

/-- A unit of the closure stands after the units that it depends on. -/
theorem IsRead.deps_before (h : IsRead g flags requested walk res) {before after : List BuildUnit}
    {unit : BuildUnit} (hsplit : res.closure = before ++ unit :: after) {d : UnitKey}
    (hd : d ∈ unit.deps) : d ∈ before.map BuildUnit.key := by
  have hunit : unit ∈ res.unit :: res.closure := by simp [hsplit]
  have hkeys := h.keys_eq
  rw [hsplit, List.map_append, List.map_cons] at hkeys
  -- where the unit stands in the order of the walk
  obtain ⟨l₁, rest, hrest, hbefore, hcons⟩ := List.filter_eq_append_iff.1 hkeys.symm
  obtain ⟨l₂, l₃, rfl, hskipped, -, -⟩ := List.filter_eq_cons_iff.1 hcons
  rw [← List.append_assoc] at hrest
  obtain ⟨unit', hdone, hdeps⟩ := h.last.sound.ordered.deps_of_split hrest
  rw [h.mem_iff.1 hunit] at hdone
  cases hdone
  have hne : d ≠ g.rootKey := by
    intro heq
    rw [heq] at hd
    exact h.last.not_leads_rootKey (((h.of_mem hunit).2 _).1 hd)
  rw [← hbefore]
  rcases List.mem_append.1 (hdeps d hd) with hmem | hmem
  · exact List.mem_filter.2 ⟨hmem, decide_eq_true hne⟩
  · exact absurd (decide_eq_true hne) (hskipped d hmem)

end

/-- The closure of a resolved target holds exactly what the target depends on, directly or not, each
unit once and after those that it depends on itself. -/
theorem closure_exact {r : Resolver} {rule : Rule} {platform : Platform} {res : Resolved}
    (h : r.resolveRule rule platform = .ok (.compatible res)) : res.HasExactClosure := by
  obtain ⟨requested, walk, hread⟩ := exists_isRead h
  have hdepends : res.DependsOn = (r.graph rule platform).Leads := by
    funext u v
    exact propext hread.dependsOn_iff
  have hmem : ∀ u, u ∈ res.closure.map BuildUnit.key ↔ TransGen res.DependsOn res.unit.key u := by
    intro u
    rw [hdepends, hread.key_eq]
    exact hread.mem_keys_iff
  refine ⟨?_, ?_, hmem, ?_, ?_⟩
  · rw [hread.keys_eq]
    exact hread.last.sound.ordered.nodup.filter _
  · rw [hread.keys_eq, hread.key_eq]
    simp
  · intro i hi d hd
    have hsplit : res.closure = res.closure.take i ++ res.closure[i] :: res.closure.drop (i + 1) := by
      rw [List.getElem_cons_drop, List.take_append_drop]
    obtain ⟨unit, hunit, rfl⟩ := List.mem_map.1 (hread.deps_before hsplit hd)
    obtain ⟨j, hj, rfl⟩ := List.mem_take_iff_getElem.1 hunit
    exact ⟨j, by omega, rfl⟩
  · intro d hd
    exact (hmem d).2 (.single ⟨res.unit, List.mem_cons_self, rfl, hd⟩)

theorem closure_exact_relay :
    relay.resolveRule relayed ⟨"linux"⟩ = .ok (.compatible relayResult) ∧
      relayResult.HasExactClosure :=
  ⟨resolveRule_relay, closure_exact resolveRule_relay⟩

end Resolver

end BuildRules
