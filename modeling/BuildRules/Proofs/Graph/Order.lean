import BuildRules.Graph
import Mathlib.Data.List.Nodup
import Mathlib.Data.List.Perm.Subperm

/-!
# Build orders

A build order holds every unit once, each after the units it depends on, so a graph that has one has
no cycle. What the queue does is said by one invariant (`Draining`): built units come after those
they depend on, and the queue holds the units whose dependencies are all built. Main statements:
`order_scheduled`, `Scheduled.acc` and, for a graph without a cycle, `exists_order`.
-/

namespace BuildRules

namespace BuildGraph

variable (g : BuildGraph)

/-- One step down from a unit of the graph. -/
def DependsOn (id dependency : String) : Prop :=
  ∃ dependencies, g.get? id = some dependencies ∧ dependency ∈ dependencies

/-- Units in an order in which each comes after those it depends on, and none twice. -/
inductive Scheduled : List String → Prop
  | nil : Scheduled []
  | concat {l : List String} {id : String} {dependencies : List String} (hl : Scheduled l)
      (hfresh : id ∉ l) (hget : g.get? id = some dependencies)
      (hdeps : ∀ d ∈ dependencies, d ∈ l) : Scheduled (l ++ [id])

variable {g} {id : String} {l built queue : List String}

theorem validate_eq_ok_iff :
    g.validate = .ok () ↔ ∀ id dependency, g.DependsOn id dependency → g.get? dependency ≠ none := by
  have hnone : g.undefined? = none ↔
      ∀ id dependency, g.DependsOn id dependency → g.get? dependency ≠ none := by
    simp only [undefined?, List.findSome?_eq_none_iff, Option.map_eq_none_iff, List.find?_eq_none,
      Prod.forall, SortedMap.mem_toList_iff, SortedMap.contains, DependsOn, get?]
    simp only [Bool.not_eq_true', Bool.not_eq_false, Option.isSome_iff_ne_none, ne_eq]
    constructor
    · rintro h id d ⟨dependencies, hget, hd⟩
      exact h id dependencies hget d hd
    · intro h id dependencies hget d hd
      exact h id d ⟨dependencies, hget, hd⟩
  rw [← hnone]
  unfold validate
  split <;> simp_all

/-- A graph is refused with a dependency that is no unit. -/
theorem validate_eq_error {e : RuleError} (h : g.validate = .error e) :
    ∃ id dependency, e = .undefinedDependency id dependency ∧ g.DependsOn id dependency ∧
      g.get? dependency = none := by
  unfold validate at h
  split at h
  · next id dependency hfound =>
    cases h
    obtain ⟨⟨id', dependencies⟩, hentry, hmap⟩ := List.exists_of_findSome?_eq_some hfound
    obtain ⟨d, hfind, heq⟩ := Option.map_eq_some_iff.1 hmap
    cases heq
    have hmissing : g.get? dependency = none := by
      simpa [SortedMap.contains, get?] using List.find?_some hfind
    refine ⟨id, dependency, rfl, ⟨dependencies, ?_, List.mem_of_find?_eq_some hfind⟩, hmissing⟩
    exact SortedMap.mem_toList_iff.1 hentry
  · cases h

theorem mem_keys_iff : id ∈ g.units.keys ↔ g.get? id ≠ none := by
  rw [← SortedMap.contains_iff_mem_keys]
  exact Option.isSome_iff_ne_none

theorem length_keys (g : BuildGraph) : g.units.keys.length = g.size := by
  simp [size, SortedMap.size, SortedMap.keys]

/-! ## Schedules -/

theorem Scheduled.nodup (h : g.Scheduled l) : l.Nodup := by
  induction h with
  | nil => exact List.nodup_nil
  | @concat l id _ _ hfresh _ _ ih =>
    exact List.Nodup.append ih (List.nodup_singleton id) (by simpa using hfresh)

theorem Scheduled.mem_keys (h : g.Scheduled l) (hid : id ∈ l) : id ∈ g.units.keys := by
  induction h with
  | nil => cases hid
  | concat _ _ hget _ ih =>
    rcases List.mem_append.1 hid with hid | hid
    · exact ih hid
    · obtain rfl := List.mem_singleton.1 hid
      exact List.mem_map_of_mem (SortedMap.mem_toList_iff.2 hget)

/-- No cycle can be reached from a unit that is scheduled. -/
theorem Scheduled.acc (h : g.Scheduled l) (hid : id ∈ l) :
    Acc (fun d id => g.DependsOn id d) id := by
  induction h generalizing id with
  | nil => cases hid
  | concat _ _ hget hdeps ih =>
    rcases List.mem_append.1 hid with hid | hid
    · exact ih hid
    · obtain rfl := List.mem_singleton.1 hid
      refine .intro _ fun d hd => ?_
      obtain ⟨dependencies, hget', hmem⟩ := hd
      rw [hget] at hget'
      cases hget'
      exact ih (hdeps d hmem)

/-- A schedule as long as the graph is large holds every unit. -/
theorem Scheduled.mem_of_length_eq (h : g.Scheduled l) (hlength : l.length = g.size)
    (hid : id ∈ g.units.keys) : id ∈ l := by
  have hsub : l.Subperm g.units.keys := h.nodup.subperm fun _ hx => h.mem_keys hx
  have hperm : l.Perm g.units.keys := hsub.perm_of_length_le (by simp [hlength, length_keys])
  exact hperm.mem_iff.2 hid

/-! ## Counting what is missing -/

variable (g) in
/-- Every unit with the number of its dependencies that are not among those built. -/
def waitingAfter (built : List String) : List Waiting :=
  g.units.toList.map fun (id, dependencies) =>
    { id, dependencies, missing := dependencies.countP (· ∉ built) }

theorem waitingAtFirst_eq : g.waitingAtFirst = g.waitingAfter [] := by
  simp [waitingAtFirst, waitingAfter]

/-- The units of which the counters pass a test. -/
theorem mem_waiting_iff {p : Waiting → Bool} :
    id ∈ ((g.waitingAfter built).filter p).map Waiting.id ↔
      ∃ dependencies, g.get? id = some dependencies ∧
        p ⟨id, dependencies, dependencies.countP (· ∉ built)⟩ := by
  simp only [waitingAfter, List.mem_map, List.mem_filter, Prod.exists, SortedMap.mem_toList_iff,
    get?]
  constructor
  · rintro ⟨w, ⟨⟨id, dependencies, hget, rfl⟩, hp⟩, rfl⟩
    exact ⟨dependencies, hget, hp⟩
  · rintro ⟨dependencies, hget, hp⟩
    exact ⟨_, ⟨⟨id, dependencies, hget, rfl⟩, hp⟩, rfl⟩

theorem nodup_waiting (p : Waiting → Bool) :
    (((g.waitingAfter built).filter p).map Waiting.id).Nodup := by
  have hids : (g.waitingAfter built).map Waiting.id = g.units.keys := by
    simp [waitingAfter, SortedMap.keys, Function.comp_def]
  have hsub := (List.filter_sublist (p := p) (l := g.waitingAfter built)).map Waiting.id
  rw [hids] at hsub
  exact hsub.nodup g.units.nodup_keys

private theorem countP_not_mem_eq_zero_iff : l.countP (· ∉ built) = 0 ↔ ∀ d ∈ l, d ∈ built := by
  simp only [List.countP_eq_zero, decide_eq_true_eq, not_not]

private theorem countP_not_mem (hid : id ∉ built) :
    l.countP (· ∉ built) = l.countP (· ∉ built ++ [id]) + l.count id := by
  induction l with
  | nil => rfl
  | cons d rest ih =>
    rw [List.countP_cons, List.countP_cons, List.count_cons, ih]
    by_cases hd : d = id
    · subst hd
      simp [hid, Nat.add_assoc]
    · simp [hd, Nat.add_right_comm]

/-- Building a unit takes it off what the others wait for. -/
theorem map_release_waitingAfter (hid : id ∉ built) :
    (g.waitingAfter built).map (·.release id) = g.waitingAfter (built ++ [id]) := by
  unfold waitingAfter
  rw [List.map_map]
  refine List.map_congr_left fun e _ => ?_
  have hcount := countP_not_mem (l := e.2) hid
  simp only [Function.comp_apply, Waiting.release, Waiting.edges]
  rw [hcount, Nat.add_sub_cancel]

/-- The units released are those for which the one just built was the last dependency. -/
theorem mem_released_iff (hid : id ∉ built) {x : String} :
    x ∈ ((g.waitingAfter built).filter (·.isReleased id)).map Waiting.id ↔
      ∃ dependencies, g.get? x = some dependencies ∧ id ∈ dependencies ∧
        ∀ d ∈ dependencies, d ∈ built ++ [id] := by
  rw [mem_waiting_iff]
  refine exists_congr fun dependencies => and_congr_right fun _ => ?_
  have hcount := countP_not_mem (l := dependencies) hid
  simp only [Waiting.isReleased, Waiting.edges, Bool.and_eq_true, decide_eq_true_eq, beq_iff_eq,
    List.count_pos_iff, ← countP_not_mem_eq_zero_iff]
  refine and_congr_right fun _ => ?_
  omega

/-! ## Draining the queue -/

/-- What holds whenever a unit is taken from the queue. -/
structure Draining (g : BuildGraph) (built queue : List String) : Prop where
  scheduled : g.Scheduled built
  nodup : (built ++ queue).Nodup
  /-- Built or queued are the units whose dependencies are all built. -/
  mem_iff : ∀ id, id ∈ built ++ queue ↔
    ∃ dependencies, g.get? id = some dependencies ∧ ∀ d ∈ dependencies, d ∈ built

theorem draining_readyAtFirst : g.Draining [] g.readyAtFirst where
  scheduled := .nil
  nodup := by
    rw [readyAtFirst, waitingAtFirst_eq]
    exact nodup_waiting _
  mem_iff id := by
    rw [List.nil_append, readyAtFirst, waitingAtFirst_eq, mem_waiting_iff]
    simp only [beq_iff_eq, countP_not_mem_eq_zero_iff]

/-- Building the unit at the head of the queue. -/
theorem Draining.step (h : g.Draining built (id :: queue)) :
    g.Draining (built ++ [id])
      (queue ++ ((g.waitingAfter built).filter (·.isReleased id)).map Waiting.id) := by
  have hsplit : (built ++ [id]) ++ queue = built ++ id :: queue := by simp
  have hfresh : id ∉ built := fun hmem =>
    (List.disjoint_of_nodup_append h.nodup) hmem List.mem_cons_self
  obtain ⟨dependencies, hget, hdeps⟩ := (h.mem_iff id).1 (by simp)
  refine ⟨.concat h.scheduled hfresh hget hdeps, ?_, fun x => ?_⟩
  · rw [← List.append_assoc, hsplit]
    refine List.Nodup.append h.nodup (nodup_waiting _) fun x hx hreleased => ?_
    -- a unit that is released waited for the one just built, so it was not ready before
    obtain ⟨deps, hget', hmem, -⟩ := (mem_released_iff hfresh).1 hreleased
    obtain ⟨deps', hget'', hall⟩ := (h.mem_iff x).1 hx
    rw [hget'] at hget''
    cases hget''
    exact hfresh (hall id hmem)
  · rw [← List.append_assoc, hsplit, List.mem_append, h.mem_iff, mem_released_iff hfresh,
      ← exists_or]
    refine exists_congr fun deps => ?_
    rw [← and_or_left]
    refine and_congr_right fun _ => ⟨?_, fun hall => ?_⟩
    · rintro (hall | ⟨-, hall⟩)
      · exact fun d hd => List.mem_append_left _ (hall d hd)
      · exact hall
    · by_cases hmem : id ∈ deps
      · exact .inr ⟨hmem, hall⟩
      · refine .inl fun d hd => (List.mem_append.1 (hall d hd)).resolve_right ?_
        intro hsingle
        obtain rfl := List.mem_singleton.1 hsingle
        exact hmem hd

/-- Draining keeps the invariant, and goes on until the queue is empty. -/
theorem Draining.drain (n : Nat) (h : g.Draining built queue) :
    ∃ left, g.Draining (built ++ drain n (g.waitingAfter built) queue) left ∧
      (left = [] ∨ (BuildGraph.drain n (g.waitingAfter built) queue).length = n) := by
  induction n generalizing built queue with
  | zero => exact ⟨queue, by simpa [BuildGraph.drain] using h, .inr rfl⟩
  | succ n ih =>
    cases queue with
    | nil => exact ⟨[], by simpa [BuildGraph.drain] using h, .inl rfl⟩
    | cons id queue =>
      have hfresh : id ∉ built := fun hmem =>
        (List.disjoint_of_nodup_append h.nodup) hmem List.mem_cons_self
      obtain ⟨left, hleft, hend⟩ := ih h.step
      rw [List.append_assoc, List.singleton_append] at hleft
      simp only [BuildGraph.drain, map_release_waitingAfter hfresh, List.length_cons,
        Nat.add_right_cancel_iff]
      exact ⟨left, hleft, hend⟩

/-- Once the queue is empty, every unit is built from which all ways come to an end. -/
theorem Draining.mem_of_acc (h : g.Draining built [])
    (hdefined : ∀ id d, g.DependsOn id d → g.get? d ≠ none)
    (hacc : Acc (fun d id => g.DependsOn id d) id) (hid : g.get? id ≠ none) : id ∈ built := by
  induction hacc with
  | intro id _ ih =>
    obtain ⟨dependencies, hget⟩ := Option.ne_none_iff_exists'.1 hid
    have hbuilt : ∀ d ∈ dependencies, d ∈ built := fun d hd =>
      ih d ⟨dependencies, hget, hd⟩ (hdefined id d ⟨dependencies, hget, hd⟩)
    simpa using (h.mem_iff id).2 ⟨dependencies, hget, hbuilt⟩

/-- The units of a build order come after those they depend on, and none is left out. -/
theorem order_scheduled (h : g.order = .ok built) :
    g.Scheduled built ∧ ∀ id ∈ g.units.keys, id ∈ built := by
  unfold order at h
  dsimp only at h
  split at h
  · next hlength =>
    cases h
    obtain ⟨left, hleft, -⟩ := draining_readyAtFirst.drain (g := g) g.size
    rw [List.nil_append, ← waitingAtFirst_eq] at hleft
    exact ⟨hleft.scheduled, fun id hid => hleft.scheduled.mem_of_length_eq hlength hid⟩
  · cases h

/-- Where every dependency is a unit and all ways come to an end, there is a build order. -/
theorem exists_order (hdefined : ∀ id d, g.DependsOn id d → g.get? d ≠ none)
    (hends : ∀ id, Acc (fun d id => g.DependsOn id d) id) : ∃ built, g.order = .ok built := by
  refine ⟨_, if_pos ?_⟩
  obtain ⟨left, hleft, hend⟩ := draining_readyAtFirst.drain (g := g) g.size
  rw [List.nil_append, ← waitingAtFirst_eq] at hleft
  rw [← waitingAtFirst_eq] at hend
  rcases hend with rfl | hlength
  · have hbuilt : g.units.keys.Subperm _ := g.units.nodup_keys.subperm fun id hid =>
      hleft.mem_of_acc hdefined (hends id) (mem_keys_iff.1 hid)
    have hkeys := hleft.scheduled.nodup.subperm fun id => hleft.scheduled.mem_keys
    exact (hkeys.antisymm hbuilt).length_eq.trans (length_keys g)
  · exact hlength

end BuildGraph

end BuildRules
