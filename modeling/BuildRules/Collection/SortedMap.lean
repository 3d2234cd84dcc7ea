/-!
# Sorted maps

A finite map kept as the list of its entries in strictly ascending key order. The order is part of
the type, so two maps with the same content are equal, and listing a map never depends on how it was
built. Main statements: one equation per operation through `get?` (`get?_insert`, `get?_override`)
and extensionality (`ext_get?`).
-/

namespace BuildRules

/-- A map from `κ` to `ν`, listed in strictly ascending key order. -/
structure SortedMap (κ ν : Type) [Ord κ] where
  toList : List (κ × ν)
  ascending : toList.Pairwise (fun a b => compare a.1 b.1 = .lt)

namespace SortedMap

variable {κ ν μ : Type} [Ord κ]

theorem eq_of_toList_eq {m n : SortedMap κ ν} (h : m.toList = n.toList) : m = n := by
  cases m; cases n; cases h; rfl

theorem toList_inj {m n : SortedMap κ ν} : m.toList = n.toList ↔ m = n :=
  ⟨eq_of_toList_eq, fun h => h ▸ rfl⟩

instance [DecidableEq κ] [DecidableEq ν] : DecidableEq (SortedMap κ ν) := fun m n =>
  decidable_of_iff (m.toList = n.toList) ⟨eq_of_toList_eq, fun h => h ▸ rfl⟩

instance : EmptyCollection (SortedMap κ ν) := ⟨⟨[], .nil⟩⟩

instance : Inhabited (SortedMap κ ν) := ⟨∅⟩

@[simp] theorem toList_empty : (∅ : SortedMap κ ν).toList = [] := rfl

def isEmpty (m : SortedMap κ ν) : Bool := m.toList.isEmpty

theorem isEmpty_iff {m : SortedMap κ ν} : m.isEmpty ↔ m = ∅ := by
  rw [isEmpty, List.isEmpty_iff, ← toList_inj, toList_empty]

def size (m : SortedMap κ ν) : Nat := m.toList.length

def keys (m : SortedMap κ ν) : List κ := m.toList.map (·.1)

def values (m : SortedMap κ ν) : List ν := m.toList.map (·.2)

/-- The map with `f` applied to every value. -/
def mapValues (f : ν → μ) (m : SortedMap κ ν) : SortedMap κ μ :=
  ⟨m.toList.map fun e => (e.1, f e.2), List.pairwise_map.2 m.ascending⟩

@[simp] theorem keys_mapValues (f : ν → μ) (m : SortedMap κ ν) : (m.mapValues f).keys = m.keys := by
  simp [keys, mapValues]

/-- The entries whose key and value satisfy `p`. -/
def filter (p : κ × ν → Bool) (m : SortedMap κ ν) : SortedMap κ ν :=
  ⟨m.toList.filter p, m.ascending.filter p⟩

/-! ## Looking up -/

section Lookup

variable [DecidableEq κ]

def get? (m : SortedMap κ ν) (k : κ) : Option ν := m.toList.lookup k

def contains (m : SortedMap κ ν) (k : κ) : Bool := (m.get? k).isSome

def getD (m : SortedMap κ ν) (k : κ) (default : ν) : ν := (m.get? k).getD default

/-- The map without the entry of a key. -/
def erase (m : SortedMap κ ν) (k : κ) : SortedMap κ ν := m.filter fun e => e.1 ≠ k

@[simp] theorem get?_empty (k : κ) : (∅ : SortedMap κ ν).get? k = none := rfl

omit [Ord κ] in
theorem lookup_cons_if {k k' : κ} {v : ν} {rest : List (κ × ν)} :
    List.lookup k ((k', v) :: rest) = if k = k' then some v else rest.lookup k := by
  by_cases h : k = k'
  · simp [h]
  · simp [List.lookup_cons, h, beq_false_of_ne h]

omit [Ord κ] in
theorem lookup_map_snd {f : ν → μ} {l : List (κ × ν)} {k : κ} :
    (l.map fun e => (e.1, f e.2)).lookup k = (l.lookup k).map f := by
  induction l with
  | nil => rfl
  | cons e rest ih =>
    rw [List.map_cons, lookup_cons_if, lookup_cons_if, ih]
    split <;> rfl

omit [Ord κ] in
private theorem mem_of_lookup {k : κ} {v : ν} {l : List (κ × ν)} (h : l.lookup k = some v) :
    (k, v) ∈ l := by
  induction l with
  | nil => simp at h
  | cons e rest ih =>
    obtain ⟨k', v'⟩ := e
    rw [lookup_cons_if] at h
    split at h
    · next hk =>
      cases h
      simp [hk]
    · exact List.mem_cons_of_mem _ (ih h)

private theorem lookup_of_mem [Std.LawfulEqOrd κ] {k : κ} {v : ν} {l : List (κ × ν)}
    (hl : l.Pairwise (fun a b => compare a.1 b.1 = .lt)) (h : (k, v) ∈ l) :
    l.lookup k = some v := by
  induction l with
  | nil => simp at h
  | cons e rest ih =>
    obtain ⟨hlt, hrest⟩ := List.pairwise_cons.1 hl
    rw [lookup_cons_if]
    rcases List.mem_cons.1 h with rfl | h
    · simp
    -- a key further on is greater than the first, so it is another one
    · have : k ≠ e.1 := by
        rintro rfl
        have := hlt _ h
        simp at this
      simp [this, ih hrest h]

omit [Ord κ] in
private theorem lookup_filter_ne {k x : κ} {l : List (κ × ν)} :
    (l.filter fun e => e.1 ≠ k).lookup x = if x = k then none else l.lookup x := by
  induction l with
  | nil => simp
  | cons e rest ih =>
    obtain ⟨k', v⟩ := e
    rw [List.filter_cons]
    by_cases hk : k' = k
    · subst hk
      simp only [ne_eq, not_true_eq_false, decide_false, Bool.false_eq_true, if_false, ih,
        lookup_cons_if]
      split <;> rfl
    · simp only [ne_eq, hk, not_false_eq_true, decide_true, if_true, lookup_cons_if, ih]
      by_cases hx : x = k'
      · simp [hx, hk]
      · simp [hx]

@[simp] theorem get?_erase (m : SortedMap κ ν) (k x : κ) :
    (m.erase k).get? x = if x = k then none else m.get? x :=
  lookup_filter_ne

/-- A map holds an entry exactly when it finds its value under its key. -/
theorem mem_toList_iff [Std.LawfulEqOrd κ] {m : SortedMap κ ν} {k : κ} {v : ν} :
    (k, v) ∈ m.toList ↔ m.get? k = some v :=
  ⟨lookup_of_mem m.ascending, mem_of_lookup⟩

theorem get?_filter [Std.LawfulEqOrd κ] {p : κ × ν → Bool} {m : SortedMap κ ν} {k : κ} :
    (m.filter p).get? k = (m.get? k).filter fun v => p (k, v) := by
  ext v
  rw [Option.filter_eq_some_iff, ← mem_toList_iff, ← mem_toList_iff, filter, List.mem_filter]

theorem contains_iff_mem_keys [Std.LawfulEqOrd κ] {m : SortedMap κ ν} {k : κ} :
    m.contains k ↔ k ∈ m.keys := by
  simp only [contains, Option.isSome_iff_exists, keys, List.mem_map, Prod.exists, ← mem_toList_iff]
  simp

@[simp] theorem get?_mapValues (f : ν → μ) (m : SortedMap κ ν) (k : κ) :
    (m.mapValues f).get? k = (m.get? k).map f :=
  lookup_map_snd

end Lookup

theorem nodup_keys [Std.LawfulEqOrd κ] (m : SortedMap κ ν) : m.keys.Nodup :=
  List.pairwise_map.2 <| m.ascending.imp fun h e => by simp [e, Std.ReflCmp.compare_self] at h

/-- The key of an entry does not stand before it. -/
theorem not_mem_of_toList_eq [Std.LawfulEqOrd κ] {m : SortedMap κ ν} {past rest : List (κ × ν)}
    {e : κ × ν} (h : m.toList = past ++ e :: rest) : e.1 ∉ past.map (·.1) := by
  have hnodup := m.nodup_keys
  simp only [keys, h, List.map_append, List.map_cons, List.nodup_append] at hnodup
  intro hmem
  exact hnodup.2.2 e.1 hmem e.1 List.mem_cons_self rfl

theorem nodup_toList [Std.LawfulEqOrd κ] (m : SortedMap κ ν) : m.toList.Nodup :=
  m.ascending.imp fun h e => by simp [e, Std.ReflCmp.compare_self] at h

/-! ## Inserting -/

private def placeEntry (k : κ) (v : ν) : List (κ × ν) → List (κ × ν)
  | [] => [(k, v)]
  | e :: rest =>
    match compare k e.1 with
    | .lt => (k, v) :: e :: rest
    | .eq => (k, v) :: rest
    | .gt => e :: placeEntry k v rest

section Insert

private theorem mem_placeEntry {k : κ} {v : ν} {l : List (κ × ν)} {x : κ × ν}
    (h : x ∈ placeEntry k v l) : x = (k, v) ∨ x ∈ l := by
  induction l with
  | nil => simpa [placeEntry] using h
  | cons e rest ih =>
    rw [placeEntry] at h
    split at h
    · exact List.mem_cons.1 h
    · rcases List.mem_cons.1 h with h | h
      · exact .inl h
      · exact .inr (List.mem_cons_of_mem _ h)
    · rcases List.mem_cons.1 h with rfl | h
      · exact .inr List.mem_cons_self
      · exact (ih h).imp_right (List.mem_cons_of_mem _)

variable [Std.LawfulEqOrd κ]

private theorem lookup_placeEntry [DecidableEq κ] {k x : κ} {v : ν} {l : List (κ × ν)} :
    (placeEntry k v l).lookup x = if x = k then some v else l.lookup x := by
  induction l with
  | nil => simp [placeEntry, lookup_cons_if]
  | cons e rest ih =>
    obtain ⟨k', v'⟩ := e
    rw [placeEntry]
    split
    · rw [lookup_cons_if]
    · next h =>
      -- the key is there, and its value is replaced
      have h : k = k' := Std.LawfulEqOrd.eq_of_compare h
      subst h
      simp only [lookup_cons_if]
      split <;> rfl
    · next h =>
      -- the key belongs further on
      have hne : k ≠ k' := by
        rintro rfl
        simp at h
      simp only [lookup_cons_if, ih]
      by_cases hx : x = k'
      · simp [hx, Ne.symm hne]
      · simp [hx]

variable [Std.TransOrd κ]

private theorem ascending_placeEntry {k : κ} {v : ν} {l : List (κ × ν)}
    (h : l.Pairwise (fun a b => compare a.1 b.1 = .lt)) :
    (placeEntry k v l).Pairwise (fun a b => compare a.1 b.1 = .lt) := by
  induction l with
  | nil => simp [placeEntry]
  | cons e rest ih =>
    obtain ⟨he, hrest⟩ := List.pairwise_cons.1 h
    rw [placeEntry]
    split
    · next hlt =>
      refine List.pairwise_cons.2 ⟨fun x hx => ?_, h⟩
      rcases List.mem_cons.1 hx with rfl | hx
      · exact hlt
      · exact Std.TransCmp.lt_trans hlt (he x hx)
    · next heq =>
      refine List.pairwise_cons.2 ⟨fun x hx => ?_, hrest⟩
      rw [show (k, v).1 = e.1 from Std.LawfulEqOrd.eq_of_compare heq]
      exact he x hx
    · next hgt =>
      refine List.pairwise_cons.2 ⟨fun x hx => ?_, ih hrest⟩
      rcases mem_placeEntry hx with rfl | hx
      · exact Std.OrientedCmp.gt_iff_lt.1 hgt
      · exact he x hx

/-- The map with `v` under `k`, in place of any value there. -/
def insert (k : κ) (v : ν) (m : SortedMap κ ν) : SortedMap κ ν :=
  ⟨placeEntry k v m.toList, ascending_placeEntry m.ascending⟩

@[simp] theorem get?_insert [DecidableEq κ] (k x : κ) (v : ν) (m : SortedMap κ ν) :
    (m.insert k v).get? x = if x = k then some v else m.get? x :=
  lookup_placeEntry

/-- A new key is one more entry. -/
theorem toList_insert_perm [DecidableEq κ] {m : SortedMap κ ν} {k : κ} (h : m.get? k = none)
    (v : ν) : (m.insert k v).toList.Perm ((k, v) :: m.toList) := by
  have hnew : (k, v) ∉ m.toList := fun hmem => by simp [mem_toList_iff.1 hmem] at h
  refine (List.perm_ext_iff_of_nodup (nodup_toList _)
    (List.nodup_cons.2 ⟨hnew, m.nodup_toList⟩)).2 ?_
  intro e
  obtain ⟨x, w⟩ := e
  simp only [mem_toList_iff, get?_insert, List.mem_cons, Prod.mk.injEq]
  by_cases hx : x = k
  · simp [hx, h, eq_comm]
  · simp [hx]

/-- The map of a list of entries; of entries with one key the last counts. -/
def ofList (l : List (κ × ν)) : SortedMap κ ν := l.foldl (fun m e => m.insert e.1 e.2) ∅

theorem mem_of_mem_ofList {l : List (κ × ν)} {e : κ × ν} (he : e ∈ (ofList l).toList) : e ∈ l := by
  have hfold : ∀ (l : List (κ × ν)) (m : SortedMap κ ν),
      e ∈ (l.foldl (fun m e => m.insert e.1 e.2) m).toList → e ∈ m.toList ∨ e ∈ l := by
    intro l
    induction l with
    | nil => exact fun m => .inl
    | cons e' rest ih =>
      intro m h
      rcases ih _ h with h | h
      · rcases mem_placeEntry h with rfl | h
        · exact .inr List.mem_cons_self
        · exact .inl h
      · exact .inr (List.mem_cons_of_mem _ h)
  exact (hfold l ∅ he).resolve_left List.not_mem_nil

/-- The last value of a key counts. -/
private theorem get?_foldl_insert [DecidableEq κ] {l : List (κ × ν)} {m : SortedMap κ ν} {x : κ} :
    (l.foldl (fun m e => m.insert e.1 e.2) m).get? x = (l.reverse.lookup x).or (m.get? x) := by
  induction l generalizing m with
  | nil => simp
  | cons e rest ih =>
    obtain ⟨k, v⟩ := e
    have hlast : [(k, v)].lookup x = if x = k then some v else none := lookup_cons_if
    simp only [List.foldl_cons, ih, get?_insert, List.reverse_cons, List.lookup_append, hlast,
      Option.or_assoc]
    split <;> rfl

/-- The map of a list of entries finds the last value of a key. -/
theorem get?_ofList [DecidableEq κ] (l : List (κ × ν)) (k : κ) :
    (ofList l).get? k = l.reverse.lookup k := by
  rw [ofList, get?_foldl_insert, get?_empty, Option.or_none]

/-- The map of entries that give each key one value. -/
theorem get?_ofList_eq_some_iff [DecidableEq κ] {l : List (κ × ν)}
    (hl : ∀ k v v', (k, v) ∈ l → (k, v') ∈ l → v = v') {k : κ} {v : ν} :
    (ofList l).get? k = some v ↔ (k, v) ∈ l := by
  have hmem : ∀ {v}, (ofList l).get? k = some v → (k, v) ∈ l := fun h =>
    mem_of_mem_ofList (mem_toList_iff.2 h)
  refine ⟨hmem, fun h => ?_⟩
  have hne : (ofList l).get? k ≠ none := by
    rw [get?_ofList, ne_eq, List.lookup_eq_none_iff]
    intro hnone
    simpa using hnone (k, v) (List.mem_reverse.2 h)
  obtain ⟨v', hv'⟩ := Option.ne_none_iff_exists'.1 hne
  rw [hv', hl k v' v (hmem hv') h]

/-- All entries of `m` and `n`, those of `n` where both have the key. -/
def override (m n : SortedMap κ ν) : SortedMap κ ν :=
  n.toList.foldl (fun m e => m.insert e.1 e.2) m

omit [Std.TransOrd κ] in
/-- A key stands once in a map, so it does not matter from which end it is looked up. -/
private theorem lookup_reverse_toList [DecidableEq κ] (m : SortedMap κ ν) (k : κ) :
    m.toList.reverse.lookup k = m.get? k := by
  cases h : m.toList.reverse.lookup k with
  | some v => exact (mem_toList_iff.1 (List.mem_reverse.1 (mem_of_lookup h))).symm
  | none =>
    rw [List.lookup_eq_none_iff] at h
    refine (List.lookup_eq_none_iff.2 fun e he => ?_).symm
    exact h e (List.mem_reverse.2 he)

@[simp] theorem get?_override [DecidableEq κ] (m n : SortedMap κ ν) (x : κ) :
    (m.override n).get? x = (n.get? x).or (m.get? x) := by
  rw [override, get?_foldl_insert, lookup_reverse_toList]

@[simp] theorem contains_override [DecidableEq κ] (m n : SortedMap κ ν) (x : κ) :
    (m.override n).contains x = (n.contains x || m.contains x) := by
  simp [contains, Option.isSome_or]

/-- Maps that find the same values are equal. -/
theorem ext_get? [DecidableEq κ] {m n : SortedMap κ ν} (h : ∀ k, m.get? k = n.get? k) : m = n := by
  -- ascending lists with the same elements are equal
  refine eq_of_toList_eq <| List.Perm.eq_of_pairwise
    (fun _ _ _ _ hab hba => by simp [Std.OrientedCmp.gt_of_lt hba] at hab)
    m.ascending n.ascending
    ((List.perm_ext_iff_of_nodup m.nodup_toList n.nodup_toList).2 fun e => ?_)
  rw [show e = (e.1, e.2) from rfl, mem_toList_iff, mem_toList_iff, h]

@[simp] theorem ofList_toList [DecidableEq κ] (m : SortedMap κ ν) : ofList m.toList = m :=
  ext_get? fun k => by rw [get?_ofList, lookup_reverse_toList]

@[simp] theorem override_empty (m : SortedMap κ ν) : m.override ∅ = m := rfl

@[simp] theorem empty_override [DecidableEq κ] (m : SortedMap κ ν) :
    override ∅ m = m :=
  ext_get? fun _ => by simp

theorem override_assoc [DecidableEq κ] (l m n : SortedMap κ ν) :
    (l.override m).override n = l.override (m.override n) :=
  ext_get? fun k => by simp only [get?_override, Option.or_assoc]

@[simp] theorem override_self [DecidableEq κ] (m : SortedMap κ ν) : m.override m = m :=
  ext_get? fun k => by simp only [get?_override, Option.or_self]

end Insert

end SortedMap

end BuildRules
