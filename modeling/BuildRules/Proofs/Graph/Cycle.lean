import BuildRules.Graph.Cycle
import Mathlib.Data.List.Chain
import Mathlib.Data.List.Nodup

/-!
# Cycles

A cycle is told as a way from a node back to itself on which nothing else comes twice. Main
statements: a path closed at a node that it holds is one (`isCycle_closePath`), and along a cycle
every node leads to every other (`IsCycle.transGen`).
-/

namespace BuildRules

open Relation

variable {α β : Type} {r : α → α → Prop}

/-- A way along a relation from a node back to itself, with no node twice in between. -/
structure IsCycle (r : α → α → Prop) (cycle : List α) : Prop where
  chain : cycle.IsChain r
  closed : ∃ first between, cycle = first :: (between ++ [first]) ∧ (first :: between).Nodup

theorem transGen_of_isChain {a b : α} {l : List α} (h : (a :: (l ++ [b])).IsChain r) :
    TransGen r a b := by
  induction l generalizing a with
  | nil => exact .single (List.isChain_pair.1 h)
  | cons c l ih =>
    obtain ⟨hac, hrest⟩ := List.isChain_cons_cons.1 h
    exact .head hac (ih hrest)

/-- No cycle can be reached from where every way ends. -/
theorem not_transGen_self_of_acc {a : α} (h : Acc (fun b a => r a b) a) : ¬ TransGen r a a := by
  induction h with
  | intro a _ ih =>
    intro hcycle
    obtain ⟨b, hab, hba⟩ := TransGen.head'_iff.1 hcycle
    exact ih b hab (TransGen.tail' hba hab)

namespace IsCycle

variable {cycle : List α} {a b : α}

/-- Along a cycle every node leads to every other, and to itself. -/
theorem transGen (h : IsCycle r cycle) (ha : a ∈ cycle) (hb : b ∈ cycle) : TransGen r a b := by
  obtain ⟨first, between, rfl, -⟩ := h.closed
  have hloop : TransGen r first first := transGen_of_isChain h.chain
  have hways : ∀ c ∈ first :: (between ++ [first]), TransGen r first c ∧ TransGen r c first := by
    intro c hc
    simp only [List.mem_cons, List.mem_append, List.not_mem_nil, or_false] at hc
    rcases hc with rfl | hc | rfl
    · exact ⟨hloop, hloop⟩
    · obtain ⟨before, after, rfl⟩ := List.append_of_mem hc
      have hchain := h.chain
      rw [List.append_assoc, List.cons_append, ← List.cons_append] at hchain
      obtain ⟨hbefore, hafter⟩ := List.isChain_split.1 hchain
      exact ⟨transGen_of_isChain hbefore, transGen_of_isChain hafter⟩
    · exact ⟨hloop, hloop⟩
  exact (hways a ha).2.trans (hways b hb).1

/-- Names that tell the nodes of a cycle apart make a cycle themselves. -/
theorem map (h : IsCycle r cycle) {name : α → β} (node : β → α)
    (hname : ∀ a ∈ cycle, node (name a) = a) :
    IsCycle (fun x y => r (node x) (node y)) (cycle.map name) where
  chain := by
    rw [List.isChain_map]
    refine h.chain.imp_of_mem_imp fun a b ha hb hab => ?_
    rwa [hname a ha, hname b hb]
  closed := by
    obtain ⟨first, between, rfl, hnodup⟩ := h.closed
    refine ⟨name first, between.map name, by simp, ?_⟩
    rw [← List.map_cons]
    refine hnodup.map_on fun a ha b hb hab => ?_
    have hmem : ∀ c ∈ first :: between, node (name c) = c := fun c hc =>
      hname c (List.mem_append_left [first] hc)
    rw [← hmem a ha, hab, hmem b hb]

end IsCycle

/-! ## Closing a path -/

variable [DecidableEq α] {path : List α} {a : α}

private theorem takeWhile_ne_append {before after : List α} (h : a ∉ before) :
    (before ++ a :: after).takeWhile (· ≠ a) = before := by
  rw [List.takeWhile_append_of_pos]
  · simp
  · intro b hb
    exact decide_eq_true fun heq => h (heq ▸ hb)

/-- A path on which no node comes twice, latest node first, makes a cycle when it comes back to a
node that it holds. -/
theorem isCycle_closePath (hnodup : path.Nodup) (hchain : (a :: path).IsChain fun y x => r x y)
    (ha : a ∈ path) : IsCycle r (closePath path a) := by
  obtain ⟨before, after, rfl⟩ := List.append_of_mem ha
  have hbefore : a ∉ before := fun hmem =>
    List.disjoint_of_nodup_append hnodup hmem List.mem_cons_self
  have hclose : closePath (before ++ a :: after) a = (a :: (before ++ [a])).reverse := by
    unfold closePath
    rw [takeWhile_ne_append hbefore]
    simp
  refine ⟨?_, a, before.reverse, by rw [hclose]; simp, ?_⟩
  · -- the way back along the path up to where the node stands on it
    rw [← List.cons_append, List.isChain_split] at hchain
    rw [hclose, List.isChain_reverse]
    exact hchain.1
  · refine List.nodup_cons.2 ⟨by simpa using hbefore, ?_⟩
    exact List.nodup_reverse.2 (List.nodup_append.1 hnodup).1

end BuildRules
