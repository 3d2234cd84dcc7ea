/-!
# Sorted sets

A finite set kept as the list of its elements in strictly ascending order. The order is part of the
type, so two sets with the same elements are equal, and listing a set never depends on how it was
built. Main statements: `mem_insert`, `mem_union`, `mem_ofList` and extensionality (`ext_mem`).
-/

namespace BuildRules

/-- A set of `α`, listed in strictly ascending order. -/
structure SortedSet (α : Type) [Ord α] where
  toList : List α
  ascending : toList.Pairwise (fun a b => compare a b = .lt)

namespace SortedSet

variable {α : Type} [Ord α]

theorem eq_of_toList_eq {s t : SortedSet α} (h : s.toList = t.toList) : s = t := by
  cases s; cases t; cases h; rfl

theorem toList_inj {s t : SortedSet α} : s.toList = t.toList ↔ s = t :=
  ⟨eq_of_toList_eq, fun h => h ▸ rfl⟩

instance [DecidableEq α] : DecidableEq (SortedSet α) := fun s t =>
  decidable_of_iff (s.toList = t.toList) ⟨eq_of_toList_eq, fun h => h ▸ rfl⟩

instance : Membership α (SortedSet α) := ⟨fun s a => a ∈ s.toList⟩

theorem mem_toList {s : SortedSet α} {a : α} : a ∈ s.toList ↔ a ∈ s := Iff.rfl

instance [DecidableEq α] (a : α) (s : SortedSet α) : Decidable (a ∈ s) :=
  inferInstanceAs (Decidable (a ∈ s.toList))

instance : EmptyCollection (SortedSet α) := ⟨⟨[], .nil⟩⟩

instance : Inhabited (SortedSet α) := ⟨∅⟩

@[simp] theorem toList_empty : (∅ : SortedSet α).toList = [] := rfl

@[simp] theorem not_mem_empty (a : α) : a ∉ (∅ : SortedSet α) := List.not_mem_nil

def isEmpty (s : SortedSet α) : Bool := s.toList.isEmpty

theorem isEmpty_iff {s : SortedSet α} : s.isEmpty ↔ ∀ x, x ∉ s := by
  rw [isEmpty, List.isEmpty_iff, List.eq_nil_iff_forall_not_mem]
  rfl

instance : HasSubset (SortedSet α) := ⟨fun s t => ∀ x ∈ s, x ∈ t⟩

instance [DecidableEq α] (s t : SortedSet α) : Decidable (s ⊆ t) :=
  inferInstanceAs (Decidable (∀ a ∈ s.toList, a ∈ t.toList))

theorem Subset.refl (s : SortedSet α) : s ⊆ s := fun _ h => h

theorem Subset.trans {s t u : SortedSet α} (hst : s ⊆ t) (htu : t ⊆ u) : s ⊆ u :=
  fun x h => htu x (hst x h)

theorem empty_subset (s : SortedSet α) : ∅ ⊆ s := fun x h => absurd h (not_mem_empty x)

/-! ## Inserting -/

private def place (a : α) : List α → List α
  | [] => [a]
  | b :: rest =>
    match compare a b with
    | .lt => a :: b :: rest
    | .eq => b :: rest
    | .gt => b :: place a rest

section Lawful

variable [Std.TransOrd α] [Std.LawfulEqOrd α]

omit [Std.TransOrd α] in
private theorem mem_place {a x : α} {l : List α} : x ∈ place a l ↔ x = a ∨ x ∈ l := by
  induction l with
  | nil => simp [place]
  | cons b rest ih =>
    rw [place]
    split
    · simp
    · next h =>
      -- the element is there already
      obtain rfl := Std.LawfulEqOrd.eq_of_compare h
      simp
    · simp only [List.mem_cons, ih]
      exact or_left_comm

private theorem ascending_place {a : α} {l : List α}
    (h : l.Pairwise (fun a b => compare a b = .lt)) :
    (place a l).Pairwise (fun a b => compare a b = .lt) := by
  induction l with
  | nil => simp [place]
  | cons b rest ih =>
    obtain ⟨hb, hrest⟩ := List.pairwise_cons.1 h
    rw [place]
    split
    · next hlt =>
      refine List.pairwise_cons.2 ⟨fun x hx => ?_, h⟩
      rcases List.mem_cons.1 hx with rfl | hx
      · exact hlt
      · exact Std.TransCmp.lt_trans hlt (hb x hx)
    · exact h
    · next hgt =>
      refine List.pairwise_cons.2 ⟨fun x hx => ?_, ih hrest⟩
      rcases mem_place.1 hx with rfl | hx
      · exact Std.OrientedCmp.gt_iff_lt.1 hgt
      · exact hb x hx

/-- The set with `a` added; a present element changes nothing. -/
def insert (a : α) (s : SortedSet α) : SortedSet α :=
  ⟨place a s.toList, ascending_place s.ascending⟩

@[simp] theorem mem_insert {a x : α} {s : SortedSet α} : x ∈ s.insert a ↔ x = a ∨ x ∈ s :=
  mem_place

def ofList (l : List α) : SortedSet α := l.foldl (fun s a => s.insert a) ∅

def union (s t : SortedSet α) : SortedSet α := t.toList.foldl (fun s a => s.insert a) s

instance : Union (SortedSet α) := ⟨union⟩

private theorem mem_foldl_insert {l : List α} {s : SortedSet α} {x : α} :
    x ∈ l.foldl (fun s a => s.insert a) s ↔ x ∈ s ∨ x ∈ l := by
  induction l generalizing s with
  | nil => simp
  | cons a rest ih =>
    simp only [List.foldl_cons, ih, mem_insert, List.mem_cons, or_assoc]
    exact or_left_comm

@[simp] theorem mem_ofList {l : List α} {x : α} : x ∈ ofList l ↔ x ∈ l := by
  simp [ofList, mem_foldl_insert]

@[simp] theorem mem_union {s t : SortedSet α} {x : α} : x ∈ s ∪ t ↔ x ∈ s ∨ x ∈ t :=
  mem_foldl_insert

theorem subset_union_left (s t : SortedSet α) : s ⊆ s ∪ t := fun _ h => mem_union.2 (.inl h)

theorem subset_union_right (s t : SortedSet α) : t ⊆ s ∪ t := fun _ h => mem_union.2 (.inr h)

theorem union_subset {s t u : SortedSet α} (hs : s ⊆ u) (ht : t ⊆ u) : s ∪ t ⊆ u :=
  fun x h => (mem_union.1 h).elim (hs x) (ht x)

theorem union_subset_union_right (s : SortedSet α) {t u : SortedSet α} (h : t ⊆ u) :
    s ∪ t ⊆ s ∪ u :=
  union_subset (subset_union_left s u) (Subset.trans h (subset_union_right s u))

/-! ## Extensionality -/

omit [Std.TransOrd α] in
theorem nodup_toList (s : SortedSet α) : s.toList.Nodup :=
  s.ascending.imp fun h e => by simp [e, Std.ReflCmp.compare_self] at h

/-- Sets with the same elements are equal. -/
theorem ext_mem {s t : SortedSet α} (h : ∀ x, x ∈ s ↔ x ∈ t) : s = t :=
  eq_of_toList_eq <| List.Perm.eq_of_pairwise
    (fun _ _ _ _ hab hba => by simp [Std.OrientedCmp.gt_of_lt hba] at hab)
    s.ascending t.ascending
    ((List.perm_ext_iff_of_nodup (nodup_toList s) (nodup_toList t)).2 h)

theorem Subset.antisymm {s t : SortedSet α} (hst : s ⊆ t) (hts : t ⊆ s) : s = t :=
  ext_mem fun x => ⟨hst x, hts x⟩

@[simp] theorem ofList_toList (s : SortedSet α) : ofList s.toList = s :=
  ext_mem fun _ => by rw [mem_ofList, mem_toList]

@[simp] theorem union_empty (s : SortedSet α) : s ∪ ∅ = s := rfl

@[simp] theorem empty_union (s : SortedSet α) : ∅ ∪ s = s := ext_mem fun _ => by simp

theorem union_eq_empty_iff {s t : SortedSet α} : s ∪ t = ∅ ↔ s = ∅ ∧ t = ∅ := by
  constructor
  · intro h
    have hsubset : ∀ {u : SortedSet α}, u ⊆ s ∪ t → u = ∅ := fun hu =>
      Subset.antisymm (h ▸ hu) (empty_subset _)
    exact ⟨hsubset (subset_union_left s t), hsubset (subset_union_right s t)⟩
  · rintro ⟨rfl, rfl⟩
    exact union_empty ∅

end Lawful

end SortedSet

end BuildRules
