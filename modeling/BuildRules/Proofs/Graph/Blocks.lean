import BuildRules.Proofs.Graph.Layers
import BuildRules.Proofs.Graph.Schedule
import Mathlib.Data.List.Forall2

/-!
# Groups as blocks of the order

The queue that makes a build order goes through the graph layer by layer: what is released while one
layer is built stands in the queue behind it, and is the next layer (`Draining.exists_next`). So the
order and the groups come from the same layers. Main statement: `schedules_agree`.
-/

namespace BuildRules

namespace BuildGraph

variable {g : BuildGraph} {built built' queue : List String} {groups : List (List String)}
variable {m n : Nat}

/-! ## One layer -/

/-- What is left depends on which units are built, and not on their order. -/
theorem leftAfter_congr (h : ∀ id, id ∈ built ↔ id ∈ built') :
    g.leftAfter built = g.leftAfter built' := by
  unfold leftAfter
  simp only [h]

/-- The queue holds the units that can be built. -/
theorem Draining.perm_readyAfter (h : g.Draining built queue) :
    queue.Perm (g.readyAfter built) := by
  have hnodup : (g.readyAfter built).Nodup := readyAfter_sublist.nodup g.units.nodup_keys
  rw [List.perm_ext_iff_of_nodup (List.nodup_append.1 h.nodup).2.1 hnodup]
  intro id
  rw [mem_readyAfter_iff, ← h.mem_iff, List.mem_append]
  constructor
  · intro hid
    exact ⟨fun hbuilt => List.disjoint_of_nodup_append h.nodup hbuilt hid, .inr hid⟩
  · rintro ⟨hfresh, hid⟩
    exact hid.resolve_left hfresh

/-- What stands first in the queue is built first, and what that releases stands behind the rest. -/
theorem Draining.drain_append {first rest : List String} (n : Nat)
    (h : g.Draining built (first ++ rest)) :
    ∃ released, g.Draining (built ++ first) (rest ++ released) ∧
      BuildGraph.drain (first.length + n) (g.waitingAfter built) (first ++ rest) =
        first ++ BuildGraph.drain n (g.waitingAfter (built ++ first)) (rest ++ released) := by
  induction first generalizing built rest with
  | nil => exact ⟨[], by simpa using h, by simp⟩
  | cons id first ih =>
    rw [List.cons_append] at h
    have hstep := h.step
    rw [List.append_assoc] at hstep
    obtain ⟨released, hdraining, hdrain⟩ := ih hstep
    rw [List.append_assoc, List.singleton_append, List.append_assoc] at hdraining hdrain
    refine ⟨_, hdraining, ?_⟩
    rw [List.length_cons, Nat.add_right_comm, List.cons_append, BuildGraph.drain,
      map_release_waitingAfter h.head_not_mem, List.append_assoc, hdrain, List.cons_append]

/-- Once all that is queued is built, the queue holds the next layer. -/
theorem Draining.exists_next (n : Nat) (h : g.Draining built queue) :
    ∃ next, g.Draining (built ++ queue) next ∧
      BuildGraph.drain (queue.length + n) (g.waitingAfter built) queue =
        queue ++ BuildGraph.drain n (g.waitingAfter (built ++ queue)) next := by
  have hall : g.Draining built (queue ++ []) := by rwa [List.append_nil]
  obtain ⟨next, hnext, hdrain⟩ := hall.drain_append n
  rw [List.append_nil, List.nil_append] at hdrain
  exact ⟨next, hnext, hdrain⟩

/-! ## Layer after layer -/

/-- The queue is built in blocks that hold the same units as the groups. -/
theorem Draining.exists_blocks (h : g.Draining built queue) (hm : g.size ≤ built.length + m)
    (hn : g.size ≤ built.length + n) :
    ∃ blocks, BuildGraph.drain n (g.waitingAfter built) queue = blocks.flatten ∧
      List.Forall₂ List.Perm blocks (groupsFrom m (g.leftAfter built)) := by
  have hlength := h.length_le
  induction m generalizing built queue n with
  | zero =>
    obtain rfl : queue = [] := List.eq_nil_of_length_eq_zero (by omega)
    exact ⟨[], by cases n <;> rfl, .nil⟩
  | succ m ih =>
    rw [groupsFrom_succ]
    split
    · next hnone =>
      -- nothing can be built, so nothing is queued
      obtain rfl : queue = [] := (hnone ▸ h.perm_readyAfter).eq_nil
      exact ⟨[], by cases n <;> rfl, .nil⟩
    · next hsome =>
      -- the queue is the first block, and what it releases goes on with the next layer
      have hpos : 0 < queue.length := by
        rw [h.perm_readyAfter.length_eq]
        exact List.length_pos_iff.2 hsome
      obtain ⟨n, rfl⟩ : ∃ n', n = queue.length + n' := Nat.exists_eq_add_of_le (by omega)
      obtain ⟨next, hnext, hdrain⟩ := h.exists_next n
      have hleft : g.leftAfter (built ++ g.readyAfter built) = g.leftAfter (built ++ queue) :=
        leftAfter_congr fun id => by simp only [List.mem_append, h.perm_readyAfter.mem_iff]
      have hmore : (built ++ queue).length = built.length + queue.length := List.length_append
      obtain ⟨blocks, hblocks, hperm⟩ :=
        ih hnext (n := n) (by omega) (by omega) hnext.length_le
      refine ⟨queue :: blocks, ?_, ?_⟩
      · rw [hdrain, hblocks, List.flatten_cons]
      · rw [hleft]
        exact .cons h.perm_readyAfter hperm

/-! ## The two schedules -/

/-- The groups are the layers of the graph, each in name order, and the order goes through them one
after the other. -/
structure Agree (g : BuildGraph) (built : List String) (groups : List (List String)) : Prop where
  sorted : ∀ group ∈ groups, group.Pairwise (· < ·)
  /-- A unit is in the group of the length of the longest way down from it. -/
  layers : ∀ i id, InGroup groups i id ↔ g.get? id ≠ none ∧ HasHeight g.DependsOn id i
  blocks : ∃ blocks, built = blocks.flatten ∧ List.Forall₂ List.Perm blocks groups

/-- What the queue makes and the groups that are made hold the same units, layer by layer. -/
theorem exists_blocks (g : BuildGraph) :
    ∃ blocks, drain g.size g.waitingAtFirst g.readyAtFirst = blocks.flatten ∧
      List.Forall₂ List.Perm blocks (groupsFrom g.size g.units.toList) := by
  rw [waitingAtFirst_eq, ← leftAfter_nil]
  exact draining_readyAtFirst.exists_blocks (by simp) (by simp)

theorem length_drain_eq (g : BuildGraph) :
    (drain g.size g.waitingAtFirst g.readyAtFirst).length =
      (groupsFrom g.size g.units.toList).flatten.length := by
  obtain ⟨blocks, hblocks, hperm⟩ := g.exists_blocks
  rw [hblocks]
  exact (List.Perm.flatten_congr hperm).length_eq

/-- Both schedules are refused with the same cycle. -/
theorem order_eq_error_iff {e : RuleError} : g.order = .error e ↔ g.groups = .error e := by
  unfold BuildGraph.order BuildGraph.groups
  simp only [length_drain_eq]
  split <;> simp

theorem agree_of_ok (horder : g.order = .ok built) (hgroups : g.groups = .ok groups) :
    g.Agree built groups where
  sorted group hgroup := g.pairwise_keys.sublist (sublist_keys_of_groups hgroups group hgroup).2
  layers i id := inGroup_iff hgroups
  blocks := by
    obtain ⟨blocks, hblocks, hperm⟩ := g.exists_blocks
    obtain ⟨rfl, -⟩ := groups_eq_ok_iff.1 hgroups
    refine ⟨blocks, ?_, hperm⟩
    unfold BuildGraph.order at horder
    simp only at horder
    split at horder
    · cases horder
      exact hblocks
    · cases horder

/-- A graph has groups exactly when it has a build order, and it is refused both with one error. The
groups are the layers of the graph, and the build order is made of blocks that hold the units of one
group each. -/
theorem schedules_agree (g : BuildGraph) :
    ((∃ groups, g.groups = .ok groups) ↔ ∃ built, g.order = .ok built) ∧
      (∀ e, g.groups = .error e ↔ g.order = .error e) ∧
      ∀ built groups, g.order = .ok built → g.groups = .ok groups → g.Agree built groups := by
  refine ⟨?_, fun e => order_eq_error_iff.symm, fun built groups => agree_of_ok⟩
  cases horder : g.order with
  | error e =>
    rw [order_eq_error_iff.1 horder]
    simp
  | ok built =>
    cases hgroups : g.groups with
    | error e =>
      rw [order_eq_error_iff.2 hgroups] at horder
      cases horder
    | ok groups => simp

/-- Inside a block the units stand in the order in which they are released. -/
example :
    let g := (((empty.add "a" []).add "b" []).add "x" ["b", "b"]).add "y" ["a"]
    g.order = .ok ["a", "b", "y", "x"] ∧ g.groups = .ok [["a", "b"], ["x", "y"]] := by
  decide +kernel

end BuildGraph

end BuildRules
