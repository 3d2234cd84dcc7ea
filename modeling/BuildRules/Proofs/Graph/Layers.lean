import BuildRules.Proofs.Graph.Order

/-!
# Build groups

The groups of a graph are its layers: a unit is built as soon as the longest way down from it has
been. What the groups so far have built is said by depth (`BuiltWithin`), and so the group of a unit
does not depend on how groups are made. Main statements: `exists_groups` and `inGroup_iff`.
-/

namespace BuildRules

/-! ## Heights -/

section

variable {α β : Type} {r : α → α → Prop} {s : β → β → Prop} {a b : α} {m n : Nat}

/-- There is a way of so many steps from a node. -/
inductive Descends (r : α → α → Prop) : Nat → α → Prop
  | zero {a : α} : Descends r 0 a
  | succ {n : Nat} {a b : α} (hstep : r a b) (hrest : Descends r n b) : Descends r (n + 1) a

/-- The longest way from a node has so many steps. -/
structure HasHeight (r : α → α → Prop) (a : α) (n : Nat) : Prop where
  descends : Descends r n a
  longest : ∀ m, Descends r m a → m ≤ n

theorem HasHeight.unique (h : HasHeight r a m) (h' : HasHeight r a n) : m = n :=
  Nat.le_antisymm (h'.longest m h.descends) (h.longest n h'.descends)

theorem HasHeight.lt_of_step (h : HasHeight r a m) (h' : HasHeight r b n) (hstep : r a b) : n < m :=
  h.longest (n + 1) (.succ hstep h'.descends)

theorem Descends.of_transGen (hway : Relation.TransGen r a b) (h : Descends r n b) :
    ∃ m, n < m ∧ Descends r m a := by
  induction hway generalizing n with
  | single hstep => exact ⟨n + 1, Nat.lt_succ_self n, .succ hstep h⟩
  | tail _ hlast ih =>
    obtain ⟨m, hm, hdescends⟩ := ih (.succ hlast h)
    exact ⟨m, Nat.lt_of_succ_lt hm, hdescends⟩

theorem HasHeight.lt_of_transGen (h : HasHeight r a m) (h' : HasHeight r b n)
    (hway : Relation.TransGen r a b) : n < m := by
  obtain ⟨k, hk, hdescends⟩ := h'.descends.of_transGen hway
  exact Nat.lt_of_lt_of_le hk (h.longest k hdescends)

/-! ## Heights under other names -/

section

variable {name : α → β} {p : α → Prop} (hclosed : ∀ a b, p a → r a b → p b)
  (hstep : ∀ a, p a → ∀ y, s (name a) y ↔ ∃ b, r a b ∧ name b = y)

include hclosed hstep

theorem descends_iff_of_step (ha : p a) : Descends s n (name a) ↔ Descends r n a := by
  constructor
  · intro h
    induction n generalizing a with
    | zero => exact .zero
    | succ n ih =>
      cases h with
      | succ hfirst hrest =>
        obtain ⟨b, hab, rfl⟩ := (hstep a ha _).1 hfirst
        exact .succ hab (ih (hclosed a b ha hab) hrest)
  · intro h
    induction h with
    | zero => exact .zero
    | @succ n a b hab _ ih => exact .succ ((hstep a ha _).2 ⟨b, hab, rfl⟩) (ih (hclosed a b ha hab))

theorem hasHeight_iff_of_step (ha : p a) : HasHeight s (name a) n ↔ HasHeight r a n := by
  have hways := fun m => descends_iff_of_step (n := m) hclosed hstep ha
  constructor
  · intro h
    exact ⟨(hways n).1 h.descends, fun m hm => h.longest m ((hways m).2 hm)⟩
  · intro h
    exact ⟨(hways n).2 h.descends, fun m hm => h.longest m ((hways m).1 hm)⟩

theorem acc_of_step (ha : p a) (h : Acc (fun b a => r a b) a) :
    Acc (fun y x => s x y) (name a) := by
  induction h with
  | intro a _ ih =>
    refine .intro _ fun y hy => ?_
    obtain ⟨b, hab, rfl⟩ := (hstep a ha y).1 hy
    exact ih b hab (hclosed a b ha hab)

end

end

namespace BuildGraph

variable (g : BuildGraph)

/-! ## What the groups so far have built -/

/-- The unit can be built in so many groups: all that it depends on in one less. -/
inductive BuiltWithin : Nat → String → Prop
  | intro {n : Nat} {id : String} {dependencies : List String}
      (hget : g.get? id = some dependencies) (hdeps : ∀ d ∈ dependencies, BuiltWithin n d) :
      BuiltWithin (n + 1) id

/-- What is left once some units are built. -/
def leftAfter (built : List String) : List (String × List String) :=
  (g.units.toList.filter fun e => e.1 ∉ built).map fun e => (e.1, e.2.filter (· ∉ built))

/-- The units that are not built, while all that they depend on is. -/
def readyAfter (built : List String) : List String :=
  (g.units.toList.filter fun e => e.1 ∉ built ∧ ∀ d ∈ e.2, d ∈ built).map (·.1)

variable {g} {id : String} {built group : List String} {groups : List (List String)} {m n : Nat}

theorem BuiltWithin.get?_ne_none (h : g.BuiltWithin n id) : g.get? id ≠ none := by
  cases h with
  | intro hget => simp [hget]

theorem BuiltWithin.mono (h : g.BuiltWithin m id) (hmn : m ≤ n) : g.BuiltWithin n id := by
  induction h generalizing n with
  | intro hget _ ih =>
    obtain ⟨n, rfl⟩ := Nat.exists_eq_add_of_lt hmn
    exact .intro hget fun d hd => ih d hd (Nat.le_add_right _ _)

/-- What can be built in so many groups has no longer way below it. -/
theorem BuiltWithin.lt_of_descends (h : g.BuiltWithin n id) (hway : Descends g.DependsOn m id) :
    m < n := by
  induction h generalizing m with
  | intro hget _ ih =>
    cases hway with
    | zero => exact Nat.succ_pos _
    | succ hstep hrest =>
      obtain ⟨dependencies, hget', hmem⟩ := hstep
      rw [hget] at hget'
      cases hget'
      exact Nat.succ_lt_succ (ih _ hmem hrest)

/-- What cannot has one that long. -/
theorem descends_of_not_builtWithin (hid : g.get? id ≠ none)
    (hdefined : ∀ id dependency, g.DependsOn id dependency → g.get? dependency ≠ none)
    (h : ¬ g.BuiltWithin n id) : Descends g.DependsOn n id := by
  induction n generalizing id with
  | zero => exact .zero
  | succ n ih =>
    obtain ⟨dependencies, hget⟩ := Option.ne_none_iff_exists'.1 hid
    obtain ⟨d, hd, hnot⟩ : ∃ d ∈ dependencies, ¬ g.BuiltWithin n d := by
      by_contra hall
      push Not at hall
      exact h (.intro hget hall)
    have hstep : g.DependsOn id d := ⟨dependencies, hget, hd⟩
    exact .succ hstep (ih (hdefined id d hstep) hnot)

/-! ## What is left -/

theorem leftAfter_nil : g.leftAfter [] = g.units.toList := by
  simp [leftAfter]

theorem strike_leftAfter : strike group (g.leftAfter built) = g.leftAfter (built ++ group) := by
  unfold strike leftAfter
  rw [List.filter_map, List.map_map, List.filter_filter]
  congr 1
  · funext e
    simp only [Function.comp_apply, List.filter_filter, List.mem_append, not_or,
      Bool.decide_and, Bool.and_comm]
  · congr 1
    funext e
    simp only [Function.comp_apply, List.mem_append, not_or, Bool.decide_and, Bool.and_comm]

/-- A unit that is left with no dependencies can be built. -/
theorem filter_leftAfter :
    ((g.leftAfter built).filter (·.2.isEmpty)).map (·.1) = g.readyAfter built := by
  unfold leftAfter readyAfter
  rw [List.filter_map, List.map_map, List.filter_filter]
  congr 1
  refine List.filter_congr fun e _ => ?_
  rw [Bool.eq_iff_iff]
  simp [List.filter_eq_nil_iff, and_comm]

theorem mem_readyAfter_iff :
    id ∈ g.readyAfter built ↔
      id ∉ built ∧ ∃ dependencies, g.get? id = some dependencies ∧ ∀ d ∈ dependencies, d ∈ built := by
  unfold readyAfter
  simp only [List.mem_map, List.mem_filter, Prod.exists, SortedMap.mem_toList_iff, get?,
    decide_eq_true_eq, exists_and_right, exists_eq_right]
  constructor
  · rintro ⟨dependencies, hget, hfresh, hdeps⟩
    exact ⟨hfresh, dependencies, hget, hdeps⟩
  · rintro ⟨hfresh, dependencies, hget, hdeps⟩
    exact ⟨dependencies, hget, hfresh, hdeps⟩

theorem readyAfter_sublist : (g.readyAfter built).Sublist g.units.keys :=
  List.filter_sublist.map Prod.fst

theorem mem_readyAfter_iff_builtWithin (hbuilt : ∀ id, id ∈ built ↔ g.BuiltWithin n id) :
    id ∈ g.readyAfter built ↔ g.BuiltWithin (n + 1) id ∧ ¬ g.BuiltWithin n id := by
  rw [mem_readyAfter_iff, hbuilt, and_comm]
  refine and_congr_left fun _ => ?_
  constructor
  · rintro ⟨dependencies, hget, hdeps⟩
    exact .intro hget fun d hd => (hbuilt d).1 (hdeps d hd)
  · rintro ⟨hget, hdeps⟩
    exact ⟨_, hget, fun d hd => (hbuilt d).2 (hdeps d hd)⟩

/-! ## Group after group -/

/-- One group more: what can be built next, unless nothing can. -/
theorem groupsFrom_succ (built : List String) (n : Nat) :
    groupsFrom (n + 1) (g.leftAfter built) =
      if g.readyAfter built = [] then []
      else g.readyAfter built :: groupsFrom n (g.leftAfter (built ++ g.readyAfter built)) := by
  rw [groupsFrom, filter_leftAfter]
  split
  · next h => rw [if_pos h]
  · next h => rw [if_neg h, strike_leftAfter]

theorem mem_append_readyAfter_iff (hbuilt : ∀ id, id ∈ built ↔ g.BuiltWithin n id) (id : String) :
    id ∈ built ++ g.readyAfter built ↔ g.BuiltWithin (n + 1) id := by
  rw [List.mem_append, hbuilt, mem_readyAfter_iff_builtWithin hbuilt]
  constructor
  · rintro (hold | hnew)
    · exact hold.mono (Nat.le_succ n)
    · exact hnew.1
  · intro h
    by_cases hold : g.BuiltWithin n id
    · exact .inl hold
    · exact .inr ⟨h, hold⟩

/-- The groups that follow once some units are built. -/
theorem mem_group_iff {i : Nat} (hbuilt : ∀ id, id ∈ built ↔ g.BuiltWithin n id)
    (hgroup : (groupsFrom m (g.leftAfter built))[i]? = some group) (id : String) :
    id ∈ group ↔ g.BuiltWithin (n + i + 1) id ∧ ¬ g.BuiltWithin (n + i) id := by
  induction m generalizing built n i with
  | zero => simp [groupsFrom] at hgroup
  | succ m ih =>
    rw [groupsFrom_succ] at hgroup
    split at hgroup
    · simp at hgroup
    · cases i with
      | zero =>
        cases hgroup
        exact mem_readyAfter_iff_builtWithin hbuilt
      | succ i =>
        have hrest := ih (mem_append_readyAfter_iff hbuilt) hgroup
        rwa [Nat.succ_add_eq_add_succ] at hrest

/-- A group is a choice of units, in name order, and holds at least one. -/
theorem group_sublist (hgroup : group ∈ groupsFrom m (g.leftAfter built)) :
    group ≠ [] ∧ group.Sublist g.units.keys := by
  induction m generalizing built with
  | zero => cases hgroup
  | succ m ih =>
    rw [groupsFrom_succ] at hgroup
    split at hgroup
    · cases hgroup
    · next hne =>
      rcases List.mem_cons.1 hgroup with rfl | hgroup
      · exact ⟨hne, readyAfter_sublist⟩
      · exact ih hgroup

/-- Groups are made until nothing more can be built, or until there are as many as allowed. -/
theorem groupsFrom_ends (m : Nat) (built : List String) :
    m ≤ (groupsFrom m (g.leftAfter built)).flatten.length ∨
      g.readyAfter (built ++ (groupsFrom m (g.leftAfter built)).flatten) = [] := by
  induction m generalizing built with
  | zero => exact .inl (Nat.zero_le _)
  | succ m ih =>
    rw [groupsFrom_succ]
    split
    · next hnone => exact .inr (by simpa using hnone)
    · next hne =>
      rw [List.flatten_cons, List.length_append, ← List.append_assoc]
      refine (ih (built ++ g.readyAfter built)).imp_left fun hlength => ?_
      have hpos := List.length_pos_iff.2 hne
      omega

/-! ## The groups of a graph -/

/-- The unit is in the group of this number. -/
def InGroup (groups : List (List String)) (i : Nat) (id : String) : Prop :=
  ∃ group, groups[i]? = some group ∧ id ∈ group

theorem mem_flatten_iff_inGroup : id ∈ groups.flatten ↔ ∃ i, InGroup groups i id := by
  rw [List.mem_flatten]
  constructor
  · rintro ⟨group, hgroup, hid⟩
    obtain ⟨i, hi⟩ := List.mem_iff_getElem?.1 hgroup
    exact ⟨i, group, hi, hid⟩
  · rintro ⟨i, group, hi, hid⟩
    exact ⟨group, List.mem_of_getElem? hi, hid⟩

/-- A unit is in the group of a number if it can be built then and not earlier. -/
theorem InGroup.builtWithin {i : Nat} (h : InGroup (groupsFrom m g.units.toList) i id) :
    g.BuiltWithin (i + 1) id ∧ ¬ g.BuiltWithin i id := by
  obtain ⟨group, hgroup, hid⟩ := h
  have hnone : ∀ id, id ∈ [] ↔ g.BuiltWithin 0 id := fun id =>
    ⟨fun h => absurd h List.not_mem_nil, fun h => by cases h⟩
  rw [← leftAfter_nil] at hgroup
  simpa using (mem_group_iff hnone hgroup id).1 hid

theorem nodup_flatten_groupsFrom (m : Nat) : (groupsFrom m g.units.toList).flatten.Nodup := by
  rw [List.nodup_flatten]
  constructor
  · intro group hgroup
    rw [← leftAfter_nil] at hgroup
    exact (group_sublist hgroup).2.nodup g.units.nodup_keys
  · rw [List.pairwise_iff_getElem]
    intro i j hi hj hij id hid hid'
    have hearly : InGroup (groupsFrom m g.units.toList) i id := ⟨_, List.getElem?_eq_getElem hi, hid⟩
    have hlate : InGroup (groupsFrom m g.units.toList) j id := ⟨_, List.getElem?_eq_getElem hj, hid'⟩
    exact hlate.builtWithin.2 (hearly.builtWithin.1.mono hij)

theorem subperm_flatten_groupsFrom (m : Nat) :
    (groupsFrom m g.units.toList).flatten.Subperm g.units.keys := by
  apply (nodup_flatten_groupsFrom m).subperm
  intro id hid
  obtain ⟨group, hgroup, hmem⟩ := List.mem_flatten.1 hid
  rw [← leftAfter_nil] at hgroup
  exact (group_sublist hgroup).2.subset hmem

theorem groups_eq_ok_iff :
    g.groups = .ok groups ↔
      groups = groupsFrom g.size g.units.toList ∧ groups.flatten.Perm g.units.keys := by
  unfold BuildGraph.groups
  dsimp only
  constructor
  · intro h
    split at h
    · next hlength =>
      cases h
      have hkeys := Nat.le_of_eq (g.length_keys.trans hlength.symm)
      exact ⟨rfl, (subperm_flatten_groupsFrom _).perm_of_length_le hkeys⟩
    · cases h
  · rintro ⟨rfl, hperm⟩
    exact if_pos (hperm.length_eq.trans g.length_keys)

theorem sublist_keys_of_groups (h : g.groups = .ok groups) :
    ∀ group ∈ groups, group ≠ [] ∧ group.Sublist g.units.keys := by
  obtain ⟨rfl, -⟩ := groups_eq_ok_iff.1 h
  rw [← leftAfter_nil]
  exact fun group => group_sublist

theorem pairwise_keys (g : BuildGraph) : g.units.keys.Pairwise (· < ·) :=
  List.pairwise_map.2 (g.units.ascending.imp compareOfLessAndEq_eq_lt.1)

/-- Where every dependency is a unit and all ways come to an end, there are groups. -/
theorem exists_groups
    (hdefined : ∀ id dependency, g.DependsOn id dependency → g.get? dependency ≠ none)
    (hends : ∀ id, g.get? id ≠ none → Acc (fun d id => g.DependsOn id d) id) :
    ∃ groups, g.groups = .ok groups := by
  refine ⟨_, groups_eq_ok_iff.2 ⟨rfl, ?_⟩⟩
  have hstop := groupsFrom_ends (g := g) g.size []
  rw [leftAfter_nil, List.nil_append] at hstop
  rcases hstop with hlength | hnone
  · exact (subperm_flatten_groupsFrom _).perm_of_length_le (g.length_keys ▸ hlength)
  · -- nothing more can be built, so everything has been
    refine (subperm_flatten_groupsFrom _).antisymm (g.units.nodup_keys.subperm fun id hid => ?_)
    have hget := mem_keys_iff.1 hid
    induction hends id hget with
    | intro id _ ih =>
      obtain ⟨dependencies, hdeps⟩ := Option.ne_none_iff_exists'.1 hget
      by_contra hnot
      have hready : id ∈ g.readyAfter (groupsFrom g.size g.units.toList).flatten := by
        refine mem_readyAfter_iff.2 ⟨hnot, dependencies, hdeps, fun d hd => ?_⟩
        have hstep : g.DependsOn id d := ⟨dependencies, hdeps, hd⟩
        have hget' := hdefined id d hstep
        exact ih d hstep (mem_keys_iff.2 hget') hget'
      rw [hnone] at hready
      cases hready

/-- A unit is in the group of its height. -/
theorem inGroup_iff (h : g.groups = .ok groups) {i : Nat} :
    InGroup groups i id ↔ g.get? id ≠ none ∧ HasHeight g.DependsOn id i := by
  obtain ⟨rfl, hperm⟩ := groups_eq_ok_iff.1 h
  have hexists : ∀ id, g.get? id ≠ none →
      ∃ j, InGroup (groupsFrom g.size g.units.toList) j id := fun id hid =>
    mem_flatten_iff_inGroup.1 (hperm.mem_iff.2 (mem_keys_iff.2 hid))
  -- what a unit depends on is built before the unit, so it is a unit as well
  have hdefined : ∀ id dependency, g.DependsOn id dependency → g.get? dependency ≠ none := by
    rintro id d ⟨dependencies, hget, hd⟩
    obtain ⟨j, hj⟩ := hexists id (by simp [hget])
    cases hj.builtWithin.1 with
    | intro hget' hdeps =>
      rw [hget] at hget'
      cases hget'
      exact (hdeps d hd).get?_ne_none
  have hheight : ∀ id j, InGroup (groupsFrom g.size g.units.toList) j id →
      HasHeight g.DependsOn id j := by
    intro id j hj
    obtain ⟨hwithin, hnot⟩ := hj.builtWithin
    refine ⟨descends_of_not_builtWithin hwithin.get?_ne_none hdefined hnot, fun m hm => ?_⟩
    exact Nat.le_of_lt_succ (hwithin.lt_of_descends hm)
  constructor
  · intro hi
    exact ⟨hi.builtWithin.1.get?_ne_none, hheight id i hi⟩
  · rintro ⟨hid, hi⟩
    obtain ⟨j, hj⟩ := hexists id hid
    rwa [hi.unique (hheight id j hj)]

end BuildGraph

end BuildRules
