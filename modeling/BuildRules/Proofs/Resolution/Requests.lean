import BuildRules.Resolution.Walk

/-!
# What is asked of units

Requests are a finite relation between units and features. Adding and merging only ever make it
larger, and merging changes nothing exactly when there is nothing new (`merge_eq_self_iff`).
-/

namespace BuildRules

namespace Requests

/-- The features asked of a unit. -/
def asked (r : Requests) (u : UnitKey) : NameSet := r.getD u ∅

theorem mem_asked_iff {r : Requests} {u : UnitKey} {f : String} :
    f ∈ r.asked u ↔ ∃ features, (u, features) ∈ r.toList ∧ f ∈ features := by
  simp only [asked, SortedMap.getD, SortedMap.mem_toList_iff]
  cases r.get? u <;> simp

theorem mem_asked_add {r : Requests} {key u : UnitKey} {features : NameSet} {f : String} :
    f ∈ (r.add key features).asked u ↔ f ∈ r.asked u ∨ u = key ∧ f ∈ features := by
  unfold add
  split
  · next h =>
    have hnot : f ∉ features := SortedSet.isEmpty_iff.1 h f
    simp [hnot]
  · simp only [asked, SortedMap.getD, SortedMap.get?_insert]
    split
    · next h =>
      subst h
      simp
    · next h => simp [h]

theorem asked_subset_add (r : Requests) (key u : UnitKey) (features : NameSet) :
    r.asked u ⊆ (r.add key features).asked u :=
  fun _ h => mem_asked_add.2 (.inl h)

theorem subset_asked_add (r : Requests) (key : UnitKey) (features : NameSet) :
    features ⊆ (r.add key features).asked key :=
  fun _ h => mem_asked_add.2 (.inr ⟨rfl, h⟩)

/-- What is asked already can be asked again. -/
theorem add_eq_self {r : Requests} {key : UnitKey} {features : NameSet}
    (h : features ⊆ r.asked key) : r.add key features = r := by
  unfold add
  split
  · rfl
  · next hne =>
    refine SortedMap.ext_get? fun u => ?_
    rw [SortedMap.get?_insert]
    split
    · next hu =>
      subst hu
      cases hget : r.get? u with
      | none =>
        -- something is asked, so the unit has an entry
        exact absurd (SortedSet.isEmpty_iff.2 fun f hf => by
          simpa [asked, SortedMap.getD, hget] using h f hf) hne
      | some present =>
        have hunion : present ∪ features = present :=
          SortedSet.Subset.antisymm
            (SortedSet.union_subset (SortedSet.Subset.refl _)
              (by simpa [asked, SortedMap.getD, hget] using h))
            (SortedSet.subset_union_left _ _)
        simp [SortedMap.getD, hget, hunion]
    · rfl

private theorem mem_asked_foldl {l : List (UnitKey × NameSet)} {r : Requests} {u : UnitKey}
    {f : String} :
    f ∈ asked (l.foldl (fun r entry => add r entry.1 entry.2) r) u ↔
      f ∈ r.asked u ∨ ∃ features, (u, features) ∈ l ∧ f ∈ features := by
  induction l generalizing r with
  | nil => simp
  | cons entry rest ih =>
    obtain ⟨key, features⟩ := entry
    simp only [List.foldl_cons, ih, mem_asked_add, List.mem_cons, Prod.mk.injEq, or_and_right,
      exists_or, or_assoc, and_assoc, exists_and_left, exists_eq_left]

theorem mem_asked_merge {r s : Requests} {u : UnitKey} {f : String} :
    f ∈ (r.merge s).asked u ↔ f ∈ r.asked u ∨ f ∈ s.asked u := by
  rw [merge, mem_asked_foldl, ← mem_asked_iff]

theorem merge_eq_self_iff {r s : Requests} :
    r.merge s = r ↔ ∀ u, s.asked u ⊆ r.asked u := by
  constructor
  · intro h u f hf
    rw [← h]
    exact mem_asked_merge.2 (.inr hf)
  · intro h
    have hentry : ∀ entry ∈ s.toList, entry.2 ⊆ r.asked entry.1 := fun entry hmem f hf =>
      h entry.1 f (mem_asked_iff.2 ⟨entry.2, hmem, hf⟩)
    unfold merge
    generalize s.toList = l at hentry
    induction l with
    | nil => rfl
    | cons entry rest ih =>
      rw [List.foldl_cons, add_eq_self (hentry entry List.mem_cons_self)]
      exact ih fun e he => hentry e (List.mem_cons_of_mem _ he)

end Requests

end BuildRules
