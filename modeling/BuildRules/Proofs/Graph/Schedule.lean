import BuildRules.Proofs.Graph.Search

/-!
# Exact build orders

The queue makes a build order of every graph that has one. On the way no counter is lowered by more
than it holds, and the queue runs empty by itself. Main statement: `order_exact`.
-/

namespace BuildRules

namespace BuildGraph

open Relation

/-! ## Counters -/

/-- The unit once `built` is built, unless more is taken off than is missing. -/
def Waiting.release? (w : Waiting) (built : String) : Option Waiting :=
  if w.edges built ≤ w.missing then some (w.release built) else none

/-- Builds what the queue holds and releases, and fails where a counter would fall below zero. -/
def drain? : (n : Nat) → List Waiting → List String → Option (List String)
  | 0, _, _ => some []
  | _, _, [] => some []
  | n + 1, waiting, id :: queue => do
    let released ← waiting.mapM (·.release? id)
    let built ← drain? n released (queue ++ (waiting.filter (·.isReleased id)).map Waiting.id)
    return id :: built

variable {g : BuildGraph} {id : String} {built queue : List String} {m n : Nat}

/-- A unit waits for no fewer dependencies than those that it has on one unit still to be built. -/
theorem mapM_release? (hid : id ∉ built) :
    (g.waitingAfter built).mapM (·.release? id) =
      some ((g.waitingAfter built).map (·.release id)) := by
  refine mapM_eq_some_map fun w hw => if_pos ?_
  obtain ⟨e, -, rfl⟩ := List.mem_map.1 hw
  -- nothing is built yet of what an edge to `id` counts for
  have hmissing : ∀ d ∈ e.2, (d == id) = true → decide (d ∉ built) = true := by
    intro d _ hd
    obtain rfl := eq_of_beq hd
    exact decide_eq_true hid
  exact List.count_eq_countP.trans_le (List.countP_mono_left hmissing)

theorem Draining.head_not_mem (h : g.Draining built (id :: queue)) : id ∉ built := fun hid =>
  List.disjoint_of_nodup_append h.nodup hid List.mem_cons_self

/-- No counter falls below zero. -/
theorem Draining.drain?_eq (n : Nat) (h : g.Draining built queue) :
    drain? n (g.waitingAfter built) queue =
      some (BuildGraph.drain n (g.waitingAfter built) queue) := by
  induction n generalizing built queue with
  | zero => rfl
  | succ n ih =>
    cases queue with
    | nil => rfl
    | cons id queue =>
      have hrest := ih h.step
      rw [← map_release_waitingAfter h.head_not_mem] at hrest
      rw [drain?, mapM_release? h.head_not_mem, Option.bind_eq_bind, Option.bind_some, hrest]
      rfl

/-! ## The end of the queue -/

/-- Built or queued are units of the graph, each once. -/
theorem Draining.length_le (h : g.Draining built queue) :
    built.length + queue.length ≤ g.size := by
  rw [← List.length_append, ← g.length_keys]
  refine (h.nodup.subperm fun id hid => mem_keys_iff.2 ?_).length_le
  obtain ⟨dependencies, hget, -⟩ := (h.mem_iff id).1 hid
  exact hget ▸ Option.some_ne_none _

/-- Once there have been as many steps as there are units, the queue is empty. -/
theorem Draining.drain_eq_of_le (h : g.Draining built queue) (hm : g.size ≤ built.length + m)
    (hmn : m ≤ n) :
    BuildGraph.drain n (g.waitingAfter built) queue =
      BuildGraph.drain m (g.waitingAfter built) queue := by
  induction m generalizing built queue n with
  | zero =>
    -- as many units are built as there are, so none is queued
    have hlength := h.length_le
    obtain rfl : queue = [] := List.eq_nil_of_length_eq_zero (by omega)
    cases n <;> rfl
  | succ m ih =>
    cases queue with
    | nil => cases n <;> rfl
    | cons id queue =>
      obtain ⟨n, rfl⟩ := Nat.exists_eq_add_of_lt hmn
      have hrest := ih (n := m + n) h.step (by simp; omega) (Nat.le_add_right m n)
      rw [← map_release_waitingAfter h.head_not_mem] at hrest
      rw [BuildGraph.drain, BuildGraph.drain, hrest]

/-! ## Graphs without a cycle -/

/-- Every way down ends if and only if none comes back to where it started. -/
theorem forall_ends_iff : (∀ id, g.Ends id) ↔ ∀ id, ¬ TransGen g.DependsOn id id := by
  constructor
  · exact fun hends id => not_transGen_self_of_acc (hends id)
  · intro hacyclic
    rcases findCycle_cases g with hcycle | ⟨-, hends⟩
    · obtain ⟨first, between, heq, -⟩ := hcycle.closed
      have hfirst : first ∈ findCycle g.units := heq ▸ List.mem_cons_self
      exact absurd (hcycle.transGen hfirst hfirst) (hacyclic first)
    · exact hends

/-- Wherever a unit stands in a schedule, what it depends on stands before it. -/
theorem Scheduled.mem_of_split {l before after : List String} (h : g.Scheduled l)
    (hsplit : l = before ++ id :: after) {d : String} (hd : g.DependsOn id d) : d ∈ before := by
  induction h generalizing after with
  | nil => simp at hsplit
  | @concat l last dependencies _ _ hget hdeps ih =>
    -- the unit is the last one, or it was there before
    rcases List.eq_nil_or_concat after with rfl | ⟨after, other, rfl⟩
    · obtain ⟨rfl, hlast⟩ := List.append_inj' hsplit rfl
      cases hlast
      obtain ⟨dependencies', hget', hmem⟩ := hd
      rw [hget] at hget'
      cases hget'
      exact hdeps d hmem
    · rw [List.concat_eq_append, ← List.cons_append, ← List.append_assoc] at hsplit
      exact ih (List.append_inj' hsplit rfl).1

theorem Scheduled.mem_of_dependsOn {l : List String} (h : g.Scheduled l) (hid : id ∈ l)
    {d : String} (hd : g.DependsOn id d) : d ∈ l := by
  obtain ⟨before, after, hsplit⟩ := List.append_of_mem hid
  rw [hsplit]
  exact List.mem_append_left _ (h.mem_of_split hsplit hd)

/-- A graph has a build order exactly when its dependencies are units and every way ends. -/
theorem exists_order_iff :
    (∃ built, g.order = .ok built) ↔
      (∀ id d, g.DependsOn id d → g.get? d ≠ none) ∧ ∀ id, g.Ends id := by
  constructor
  · rintro ⟨built, horder⟩
    obtain ⟨hscheduled, hall⟩ := order_scheduled horder
    refine ⟨fun id d hd => ?_, fun id => ?_⟩
    · have hmem := hscheduled.mem_of_dependsOn (hall id hd.mem_keys) hd
      exact mem_keys_iff.1 (hscheduled.mem_keys hmem)
    · by_cases hid : id ∈ g.units.keys
      · exact hscheduled.acc (hall id hid)
      · -- a name that is no unit depends on nothing
        exact .intro id fun d hd => absurd hd.mem_keys hid
  · rintro ⟨hdefined, hends⟩
    exact exists_order hdefined hends

/-! ## Build orders -/

variable (g) in
/-- Every unit of the graph stands in the list once, after all that it depends on. -/
structure IsOrder (built : List String) : Prop where
  nodup : built.Nodup
  mem_iff : ∀ id, id ∈ built ↔ g.get? id ≠ none
  deps_before : ∀ i (hi : i < built.length), ∀ d, g.DependsOn built[i] d →
    ∃ j, ∃ hj : j < i, built[j] = d

theorem isOrder_of_order (h : g.order = .ok built) : g.IsOrder built := by
  obtain ⟨hscheduled, hall⟩ := order_scheduled h
  refine ⟨hscheduled.nodup, fun id => ?_, fun i hi d hd => ?_⟩
  · rw [← mem_keys_iff]
    exact ⟨hscheduled.mem_keys, hall id⟩
  · have hsplit : built = built.take i ++ built[i] :: built.drop (i + 1) := by
      rw [List.getElem_cons_drop, List.take_append_drop]
    obtain ⟨j, hj, rfl⟩ := List.mem_take_iff_getElem.1 (hscheduled.mem_of_split hsplit hd)
    exact ⟨j, by omega, rfl⟩

/-- A graph is put in order exactly when every dependency is a unit and no unit leads back to
itself. No counter falls below zero on the way, however long it is gone on. What comes of it is a
build order; where none does, though every dependency is a unit, the path told is a cycle. -/
theorem order_exact (g : BuildGraph) :
    (∀ n, g.size ≤ n → drain? n g.waitingAtFirst g.readyAtFirst =
        some (drain g.size g.waitingAtFirst g.readyAtFirst)) ∧
      ((∃ built, g.order = .ok built) ↔
        (∀ id d, g.DependsOn id d → g.get? d ≠ none) ∧ ∀ id, ¬ TransGen g.DependsOn id id) ∧
      (∀ built, g.order = .ok built → g.IsOrder built) ∧
      (g.validate = .ok () → ∀ path, g.order = .error (.cycle path) →
        IsCycle g.DependsOn path) := by
  refine ⟨fun n hn => ?_, ?_, fun built => isOrder_of_order, fun hvalid path hpath => ?_⟩
  · have hstart := draining_readyAtFirst (g := g)
    rw [waitingAtFirst_eq, hstart.drain?_eq, hstart.drain_eq_of_le (by simp) hn]
  · rw [exists_order_iff, forall_ends_iff]
  · obtain ⟨path', heq, hcycle⟩ := order_eq_error (validate_eq_ok_iff.1 hvalid) hpath
    cases heq
    exact hcycle

/-- An edge given twice is counted twice, and a cycle is told from the first of its units. -/
example :
    ((empty.add "b" ["a", "a"]).add "a" []).order = .ok ["a", "b"] ∧
      (((empty.add "c" ["b"]).add "b" ["a"]).add "a" ["b"]).order =
        .error (.cycle ["a", "b", "a"]) := by
  decide +kernel

end BuildGraph

end BuildRules
