import BuildRules.Proofs.Except
import BuildRules.Proofs.Graph.Cycle
import BuildRules.Proofs.Graph.Order

/-!
# The search for a cycle

The depth-first search either comes back with a cycle or shows that there is none. What carries it
is said of the names it has seen: each is on the path, or no cycle can be reached from it
(`Cleared`). The queue that makes a build order is stuck only where the search finds a cycle. Main
statements: `findCycle_cases` and `order_eq_error`.
-/

namespace BuildRules

namespace BuildGraph

open Relation

variable {g : BuildGraph} {id dependency : String} {depth : Nat} {path : List String}
variable {seen : SortedSet String}

/-- Every way down the graph comes to an end. -/
def Ends (g : BuildGraph) (id : String) : Prop := Acc (fun d id => g.DependsOn id d) id

theorem mem_getD_units_iff : dependency ∈ g.units.getD id [] ↔ g.DependsOn id dependency := by
  simp only [SortedMap.getD, DependsOn, get?]
  cases g.units.get? id <;> simp

theorem DependsOn.mem_keys (h : g.DependsOn id dependency) : id ∈ g.units.keys := by
  obtain ⟨dependencies, hget, -⟩ := h
  exact List.mem_map_of_mem (SortedMap.mem_toList_iff.2 hget)

theorem Ends.of_dependencies (h : ∀ d ∈ g.units.getD id [], g.Ends d) : g.Ends id :=
  .intro id fun d hd => h d (mem_getD_units_iff.2 hd)

/-! ## Along a path -/

/-- The search has come to a name along a path of units, latest first, with enough depth left to
visit every unit that is not on it. -/
structure Along (g : BuildGraph) (depth : Nat) (path : List String) (id : String) : Prop where
  nodup : path.Nodup
  chain : (id :: path).IsChain fun d id => g.DependsOn id d
  units : ∀ x ∈ path, x ∈ g.units.keys
  enough : g.size + 2 ≤ depth + path.length

theorem along_start (id : String) : g.Along (g.size + 2) [] id :=
  ⟨List.nodup_nil, List.isChain_singleton id, by simp, by simp⟩

theorem Along.depth_pos (h : g.Along depth path id) : 0 < depth := by
  have hlength : path.length ≤ g.units.keys.length := (h.nodup.subperm h.units).length_le
  have henough := h.enough
  simp only [SortedMap.keys, List.length_map] at hlength
  simp only [size, SortedMap.size] at henough
  omega

/-- One step down from the name reached. -/
theorem Along.step (h : g.Along (depth + 1) path id) (hfresh : id ∉ path)
    (hstep : g.DependsOn id dependency) : g.Along depth (id :: path) dependency where
  nodup := List.nodup_cons.2 ⟨hfresh, h.nodup⟩
  chain := List.isChain_cons_cons.2 ⟨hstep, h.chain⟩
  units := by simpa using ⟨hstep.mem_keys, h.units⟩
  enough := by
    have henough := h.enough
    simp only [List.length_cons]
    omega

/-! ## What has been seen -/

/-- A name that has been seen is on the path, or no cycle can be reached from it. -/
def Cleared (g : BuildGraph) (path : List String) (seen : SortedSet String) : Prop :=
  ∀ x ∈ seen, x ∈ path ∨ g.Ends x

theorem Cleared.insert (h : g.Cleared path seen) : g.Cleared (id :: path) (seen.insert id) := by
  intro x hx
  rcases SortedSet.mem_insert.1 hx with rfl | hx
  · simp
  · exact (h x hx).imp_left (List.mem_cons_of_mem id)

/-- A name from which no cycle can be reached may be taken off the path. -/
theorem Cleared.pop (h : g.Cleared (id :: path) seen) (hid : g.Ends id) : g.Cleared path seen := by
  intro x hx
  rcases h x hx with hpath | hends
  · rcases List.mem_cons.1 hpath with rfl | hpath
    · exact .inr hid
    · exact .inl hpath
  · exact .inr hends

/-- What a search keeps to: it finds a cycle, or that none can be reached from some names. -/
def Searches (g : BuildGraph) (path names : List String)
    (result : Except (List String) (SortedSet String)) : Prop :=
  Meets result (fun seen => (∀ id ∈ names, g.Ends id) ∧ g.Cleared path seen) (IsCycle g.DependsOn)

/-- Names are searched one after the other. -/
theorem searches_foldlM {names : List String}
    {seek : SortedSet String → String → Except (List String) (SortedSet String)}
    (hseek : ∀ id ∈ names, ∀ seen, g.Cleared path seen → g.Searches path [id] (seek seen id))
    (hseen : g.Cleared path seen) : g.Searches path names (names.foldlM seek seen) := by
  induction names generalizing seen with
  | nil => exact ⟨by simp, hseen⟩
  | cons id names ih =>
    rw [List.foldlM_cons]
    refine Meets.bind (hseek id List.mem_cons_self seen hseen) fun seen' hid => ?_
    have hrest := ih (fun x hx => hseek x (List.mem_cons_of_mem id hx)) hid.2
    exact hrest.mono (fun _ h => ⟨List.forall_mem_cons.2 ⟨hid.1 id (by simp), h.1⟩, h.2⟩)
      (fun _ h => h)

theorem searches_seekCycle (halong : g.Along depth path id) (hseen : g.Cleared path seen) :
    g.Searches path [id] (seekCycle g.units depth path seen id) := by
  induction depth generalizing path seen id with
  | zero => exact absurd halong.depth_pos (Nat.lt_irrefl 0)
  | succ depth ih =>
    unfold seekCycle
    split
    · next hpath => exact isCycle_closePath halong.nodup halong.chain hpath
    · next hpath =>
      split
      · next hmem => exact ⟨by simpa using (hseen id hmem).resolve_left hpath, hseen⟩
      · have hbelow : g.Searches (id :: path) (g.units.getD id []) _ :=
          searches_foldlM
            (fun d hd _ hseen' => ih (halong.step hpath (mem_getD_units_iff.1 hd)) hseen')
            hseen.insert
        refine hbelow.mono (fun seen' h => ?_) (fun _ h => h)
        have hends : g.Ends id := .of_dependencies h.1
        exact ⟨by simpa using hends, h.2.pop hends⟩

/-- The search finds a true cycle, or there is none. -/
theorem findCycle_cases (g : BuildGraph) :
    IsCycle g.DependsOn (findCycle g.units) ∨ (findCycle g.units = [] ∧ ∀ id, g.Ends id) := by
  have hloop : g.Searches [] g.units.keys
      (g.units.keys.foldlM (seekCycle g.units (g.units.size + 2) []) ∅) :=
    searches_foldlM (fun id _ _ hseen => searches_seekCycle (along_start id) hseen)
      fun x hx => absurd hx (SortedSet.not_mem_empty x)
  unfold findCycle
  split
  · next cycle heq =>
    rw [heq] at hloop
    exact .inl hloop
  · next seen heq =>
    rw [heq] at hloop
    refine .inr ⟨rfl, fun id => ?_⟩
    by_cases hid : id ∈ g.units.keys
    · exact hloop.1 id hid
    · -- a name that is no unit depends on nothing
      exact .intro id fun d hd => absurd hd.mem_keys hid

/-! ## Where there is no build order -/

/-- A graph without a build order is refused with a true cycle. -/
theorem order_eq_error {e : RuleError} (hdefined : ∀ id d, g.DependsOn id d → g.get? d ≠ none)
    (h : g.order = .error e) : ∃ path, e = .cycle path ∧ IsCycle g.DependsOn path := by
  rcases findCycle_cases g with hcycle | ⟨-, hends⟩
  · refine ⟨findCycle g.units, ?_, hcycle⟩
    unfold order at h
    simp only at h
    split at h
    · cases h
    · cases h
      rfl
  · obtain ⟨built, horder⟩ := exists_order hdefined hends
    rw [horder] at h
    cases h

end BuildGraph

end BuildRules
