import BuildRules.Rule.Feature

/-!
# What flattening reaches

The entries reached from requested ones, said without an order in which they are followed. Main
statements: `mem_reach_iff` (the work list finds exactly these) and `flatten_mono` (more requests
never switch anything off).
-/

namespace BuildRules

namespace FeatureEntry

theorem eq_of_ofText_eq_feature {text name : String} (h : ofText text = feature name) :
    name = text := by
  unfold ofText at h
  split at h
  · cases h
  · split at h
    · cases h
      rfl
    · split at h <;> cases h

end FeatureEntry

namespace FeatureMap

/-- The texts reached from those requested: what a reached feature implies is reached too. -/
inductive Reaches (map : FeatureMap) (requested : List String) : String → Prop
  | requested {text : String} (h : text ∈ requested) : Reaches map requested text
  | implied {name text : String} (hname : Reaches map requested name)
      (hfeature : FeatureEntry.ofText name = .feature name) (h : text ∈ map.getD name []) :
      Reaches map requested text

variable {map : FeatureMap} {requested : List String}

theorem Reaches.mono {map' : FeatureMap} {requested' : List String} {text : String}
    (hmap : ∀ name, map.getD name [] ⊆ map'.getD name []) (hreq : requested ⊆ requested')
    (h : map.Reaches requested text) : map'.Reaches requested' text := by
  induction h with
  | requested h => exact .requested (hreq h)
  | implied _ hfeature h ih => exact .implied ih hfeature (hmap _ h)

private theorem getD_erase (map : FeatureMap) (name other : String) :
    (SortedMap.erase map name).getD other [] = if other = name then [] else map.getD other [] := by
  rw [SortedMap.getD, SortedMap.get?_erase]
  split <;> rfl

private theorem getD_erase_subset (map : FeatureMap) (name other : String) :
    (SortedMap.erase map name).getD other [] ⊆ map.getD other [] := by
  rw [getD_erase]
  split
  · exact List.nil_subset _
  · exact fun _ h => h

/-- Once a feature is followed its list is pending and its own entry is needed no more. -/
private theorem reaches_cons_feature_iff {name text : String} {pending : List String}
    (hname : FeatureEntry.ofText name = .feature name) :
    map.Reaches (name :: pending) text ↔
      text = name ∨ Reaches (SortedMap.erase map name) (map.getD name [] ++ pending) text := by
  constructor
  · intro h
    induction h with
    | requested h =>
      rcases List.mem_cons.1 h with rfl | h
      · exact .inl rfl
      · exact .inr (.requested (List.mem_append_right _ h))
    | @implied other text _ hfeature h ih =>
      by_cases heq : other = name
      · subst heq
        exact .inr (.requested (List.mem_append_left _ h))
      · refine .inr (.implied (ih.resolve_left heq) hfeature ?_)
        rwa [getD_erase, if_neg heq]
  · rintro (rfl | h)
    · exact .requested List.mem_cons_self
    · have hname' : map.Reaches (name :: pending) name := .requested List.mem_cons_self
      induction h with
      | requested h =>
        rcases List.mem_append.1 h with h | h
        · exact .implied hname' hname h
        · exact .requested (List.mem_cons_of_mem _ h)
      | implied _ hfeature h ih => exact .implied ih hfeature (getD_erase_subset map name _ h)

/-- An entry that is no feature leads to nothing else. -/
private theorem reaches_cons_other_iff {entry text : String} {pending : List String}
    (hentry : FeatureEntry.ofText entry ≠ .feature entry) :
    map.Reaches (entry :: pending) text ↔ text = entry ∨ map.Reaches pending text := by
  constructor
  · intro h
    induction h with
    | requested h => exact (List.mem_cons.1 h).imp_right .requested
    | implied _ hfeature h ih =>
      rcases ih with rfl | ih
      · exact absurd hfeature hentry
      · exact .inr (.implied ih hfeature h)
  · rintro (rfl | h)
    · exact .requested List.mem_cons_self
    · exact h.mono (fun _ _ h => h) (List.subset_cons_self _ _)

/-- Following a map finds exactly the entries reached. -/
theorem mem_reach_iff {entry : FeatureEntry} :
    entry ∈ map.reach requested ↔
      ∃ text, map.Reaches requested text ∧ FeatureEntry.ofText text = entry := by
  fun_induction reach map requested with
  | case1 map =>
    have hnone : ∀ text, ¬ map.Reaches [] text := by
      intro text h
      induction h with
      | requested h => cases h
      | implied _ _ _ ih => exact ih
    simp [hnone]
  | case2 map text pending name hname ih =>
    obtain rfl := FeatureEntry.eq_of_ofText_eq_feature hname
    simp only [List.mem_cons, ih, reaches_cons_feature_iff hname, or_and_right, exists_or,
      exists_eq_left, hname, @eq_comm _ entry]
  | case3 map text pending hentry ih =>
    have hentry' : FeatureEntry.ofText text ≠ .feature text := fun h => hentry text h
    simp only [List.mem_cons, ih, reaches_cons_other_iff hentry', or_and_right, exists_or,
      exists_eq_left, @eq_comm _ entry]

end FeatureMap

/-! ## Flattening -/

namespace FeatureSelection

private theorem mem_requestsOn_record {s : FeatureSelection} {entry : FeatureEntry}
    {dependency feature : String} :
    feature ∈ (s.record entry).requestsOn dependency ↔
      feature ∈ s.requestsOn dependency ∨ ∃ weak, entry = .request dependency feature weak := by
  cases entry with
  | feature | dependency => simp [record, requestsOn]
  | request d f w =>
    simp only [record, requestsOn, SortedMap.getD, SortedMap.get?_insert]
    split
    · next h =>
      subst h
      simp [or_comm, eq_comm]
    · next h => simp [Ne.symm h]

theorem mem_enabled_foldl {l : List FeatureEntry} {s : FeatureSelection} {name : String} :
    name ∈ (l.foldl record s).enabled ↔ name ∈ s.enabled ∨ .feature name ∈ l := by
  induction l generalizing s with
  | nil => simp
  | cons entry rest ih =>
    rw [List.foldl_cons, ih, List.mem_cons, ← or_assoc]
    cases entry <;> simp [record, or_comm]

theorem mem_activated_foldl {l : List FeatureEntry} {s : FeatureSelection} {name : String} :
    name ∈ (l.foldl record s).activated ↔
      name ∈ s.activated ∨ .dependency name ∈ l ∨ ∃ feature, .request name feature false ∈ l := by
  induction l generalizing s with
  | nil => simp
  | cons entry rest ih =>
    simp only [List.foldl_cons, ih, List.mem_cons, exists_or]
    cases entry with
    | feature => simp [record]
    | dependency => simp [record, or_assoc, or_left_comm]
    | request d f w => cases w <;> simp [record, or_assoc, or_left_comm]

theorem mem_requestsOn_foldl {l : List FeatureEntry} {s : FeatureSelection}
    {dependency feature : String} :
    feature ∈ (l.foldl record s).requestsOn dependency ↔
      feature ∈ s.requestsOn dependency ∨ ∃ weak, .request dependency feature weak ∈ l := by
  induction l generalizing s with
  | nil => simp
  | cons entry rest ih =>
    simp only [List.foldl_cons, ih, mem_requestsOn_record, List.mem_cons, exists_or, or_assoc,
      eq_comm]

/-- What a selection holds is held by another one. -/
structure Within (s t : FeatureSelection) : Prop where
  enabled : s.enabled ⊆ t.enabled
  activated : s.activated ⊆ t.activated
  requests : ∀ dependency, s.requestsOn dependency ⊆ t.requestsOn dependency

end FeatureSelection

namespace FeatureMap

variable {map : FeatureMap} {requested : NameSet}

theorem mem_enabled_flatten_iff {name : String} :
    name ∈ (map.flatten requested).enabled ↔
      map.Reaches requested.toList name ∧ FeatureEntry.ofText name = .feature name := by
  simp only [flatten, FeatureSelection.mem_enabled_foldl, mem_reach_iff, SortedSet.not_mem_empty,
    false_or]
  constructor
  · intro hmem
    obtain ⟨text, h, hname⟩ := hmem
    obtain rfl := FeatureEntry.eq_of_ofText_eq_feature hname
    exact ⟨h, hname⟩
  · intro hmem
    obtain ⟨h, hname⟩ := hmem
    exact ⟨name, h, hname⟩

theorem mem_activated_flatten_iff {name : String} :
    name ∈ (map.flatten requested).activated ↔
      ∃ text, map.Reaches requested.toList text ∧
        (FeatureEntry.ofText text = .dependency name
          ∨ ∃ feature, FeatureEntry.ofText text = .request name feature false) := by
  simp only [flatten, FeatureSelection.mem_activated_foldl, mem_reach_iff, SortedSet.not_mem_empty,
    false_or]
  constructor
  · intro hmem
    rcases hmem with ⟨text, h, hname⟩ | ⟨feature, text, h, hname⟩
    · exact ⟨text, h, .inl hname⟩
    · exact ⟨text, h, .inr ⟨feature, hname⟩⟩
  · intro hmem
    rcases hmem with ⟨text, h, hname | ⟨feature, hname⟩⟩
    · exact .inl ⟨text, h, hname⟩
    · exact .inr ⟨feature, text, h, hname⟩

theorem mem_requestsOn_flatten_iff {dependency feature : String} :
    feature ∈ (map.flatten requested).requestsOn dependency ↔
      ∃ text weak, map.Reaches requested.toList text ∧
        FeatureEntry.ofText text = .request dependency feature weak := by
  simp only [flatten, FeatureSelection.mem_requestsOn_foldl, mem_reach_iff]
  constructor
  · intro hmem
    rcases hmem with h | ⟨weak, text, h⟩
    · exact absurd h (SortedSet.not_mem_empty _)
    · exact ⟨text, weak, h⟩
  · intro hmem
    obtain ⟨text, weak, h⟩ := hmem
    exact .inr ⟨weak, text, h⟩

/-- Whatever more is requested, nothing is switched off. -/
theorem flatten_mono (map : FeatureMap) {requested requested' : NameSet}
    (h : requested ⊆ requested') : (map.flatten requested).Within (map.flatten requested') := by
  have hreach : ∀ text, map.Reaches requested.toList text → map.Reaches requested'.toList text :=
    fun _ ht => ht.mono (fun _ _ h => h) h
  refine ⟨fun name hn => ?_, fun name hn => ?_, fun dependency feature hf => ?_⟩
  · obtain ⟨ht, hname⟩ := mem_enabled_flatten_iff.1 hn
    exact mem_enabled_flatten_iff.2 ⟨hreach _ ht, hname⟩
  · obtain ⟨text, ht, hname⟩ := mem_activated_flatten_iff.1 hn
    exact mem_activated_flatten_iff.2 ⟨text, hreach _ ht, hname⟩
  · obtain ⟨text, weak, ht, hname⟩ := mem_requestsOn_flatten_iff.1 hf
    exact mem_requestsOn_flatten_iff.2 ⟨text, weak, hreach _ ht, hname⟩

end FeatureMap

end BuildRules
