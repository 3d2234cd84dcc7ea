import BuildRules.Proofs.Graph.Layers
import BuildRules.Proofs.Resolution.Refusal
import BuildRules.Proofs.Resolution.Sides

/-!
# Groups of a resolved target

The groups of a resolved target are groups of labels. Platforms hold no blanks, so labels tell units
apart, whatever the names of rules look like; and so the groups are the layers of the closure. Main
statement: `groups_layered`.
-/

namespace BuildRules

open Relation

/-! ## Labels -/

theorem Platform.not_mem_blank {p : Platform} (h : IsName p.text) : ' ' ∉ p.text.toList := by
  intro hmem
  have hblank : Text.anyBlank p.text = true := List.any_eq_true.2 ⟨' ', hmem, by decide⟩
  rw [h.2] at hblank
  cases hblank

/-- A label ends with the platform, which begins after the last blank. -/
theorem UnitKey.eq_of_label_eq {u v : UnitKey} (hu : Platform.IsName u.platform.text)
    (hv : Platform.IsName v.platform.text) (h : u.label = v.label) : u = v := by
  -- no blank follows the one in front of the platform, so a label is cut there
  have hcut : ∀ w : UnitKey, Platform.IsName w.platform.text →
      Text.cutCharsLast? ' ' w.label.toList =
        some (w.name.toList, '(' :: (w.platform.text.toList ++ [')'])) := by
    intro w hw
    refine Text.cutCharsLast?_eq_some_iff.2 ⟨by simp [label], ?_⟩
    simpa using Platform.not_mem_blank hw
  have hparts := hcut u hu
  rw [h, hcut v hv] at hparts
  simp only [Option.some.injEq, Prod.mk.injEq, List.cons.injEq, true_and,
    List.append_cancel_right_eq, String.toList_inj] at hparts
  obtain ⟨name, ⟨text⟩⟩ := u
  obtain ⟨name', ⟨text'⟩⟩ := v
  obtain ⟨rfl, rfl⟩ := hparts
  rfl

/-! ## The graph of labels -/

section

variable {units : List BuildUnit} {id : String} {dependencies : List String}

/-- A graph holds what is added to it under labels of their own. -/
theorem BuildGraph.get?_foldl_add (hnodup : (units.map fun unit => unit.key.label).Nodup) :
    (units.foldl (fun g unit => g.add unit.key.label (unit.deps.map UnitKey.label))
        BuildGraph.empty).get? id = some dependencies ↔
      ∃ unit ∈ units, unit.key.label = id ∧ unit.deps.map UnitKey.label = dependencies := by
  -- units are added at the end, and what is added hides no unit that was there before
  induction units using List.reverseRecOn with
  | nil => simp [get?, empty]
  | append_singleton units unit ih =>
    rw [List.map_append, List.nodup_append] at hnodup
    obtain ⟨hunits, -, hfresh⟩ := hnodup
    rw [List.foldl_append, List.foldl_cons, List.foldl_nil, add, get?, SortedMap.get?_insert]
    simp only [List.mem_append, List.mem_singleton, or_and_right, exists_or, exists_eq_left]
    split
    · next heq =>
      subst heq
      have hnone : ¬ ∃ other ∈ units, other.key.label = unit.key.label ∧
          other.deps.map UnitKey.label = dependencies := by
        rintro ⟨other, hother, hlabel, -⟩
        exact hfresh _ (List.mem_map_of_mem hother) _ (by simp) hlabel
      simp [hnone]
    · next hne =>
      rw [← get?, ih hunits]
      simp [Ne.symm hne]

end

/-- A resolved target is told in groups. -/
structure Resolved.IsLayered (res : Resolved) (groups : List (List String)) : Prop where
  /-- Labels tell units apart. -/
  labels_nodup : ((res.unit :: res.closure).map fun unit => unit.key.label).Nodup
  /-- Every unit is told once, and nothing else is. -/
  perm : groups.flatten.Perm ((res.unit :: res.closure).map fun unit => unit.key.label)
  /-- A unit is in the group of the longest way down from it. -/
  height : ∀ unit ∈ res.unit :: res.closure, ∀ i,
    BuildGraph.InGroup groups i unit.key.label ↔ HasHeight res.DependsOn unit.key i
  /-- All that a unit depends on is in earlier groups. -/
  earlier : ∀ unit ∈ res.unit :: res.closure, ∀ i, BuildGraph.InGroup groups i unit.key.label →
    ∀ d ∈ unit.deps, ∃ j < i, BuildGraph.InGroup groups j d.label
  /-- Some of it is in the group before, unless the unit is in the first one. -/
  before : ∀ unit ∈ res.unit :: res.closure, ∀ i,
    BuildGraph.InGroup groups (i + 1) unit.key.label →
      ∃ d ∈ unit.deps, BuildGraph.InGroup groups i d.label
  ne_nil : ∀ group ∈ groups, group ≠ []
  sorted : ∀ group ∈ groups, group.Pairwise (· < ·)
  root : groups.getLast? = some [res.unit.key.label]

namespace Resolver

section

variable {g : UnitGraph} {flags : List String} {requested : Requests}
variable {outcome : Walk.Outcome} {walk : Walk} {res : Resolved} {u v : UnitKey}

/-! ## Units and labels -/

/-- No unit of a resolved target comes twice. -/
theorem IsRead.nodup_keys (h : IsRead g flags requested walk res) :
    ((res.unit :: res.closure).map BuildUnit.key).Nodup := by
  rw [List.map_cons, h.keys_eq, h.key_eq]
  refine List.nodup_cons.2 ⟨by simp, ?_⟩
  exact h.last.sound.ordered.nodup.filter _

/-- All ways down the graph come to an end. -/
theorem LastWalk.acc_leads (h : LastWalk g flags requested outcome walk) (hu : g.Has u) :
    Acc (fun v u => g.Leads u v) u := by
  obtain ⟨o, ho⟩ := h.done_iff.2 hu
  induction h.sound.grounded u o ho generalizing o with
  | intro u _ ih =>
    refine .intro u fun v hv => ?_
    obtain ⟨o', ho'⟩ := h.done_iff.2 hv.has
    exact ih v ((h.follows_iff hu).2 hv) hv.has o' ho'

variable (hnames : ∀ u, g.Has u → Platform.IsName u.platform.text)

include hnames

theorem IsRead.nodup_labels (h : IsRead g flags requested walk res) :
    ((res.unit :: res.closure).map fun unit => unit.key.label).Nodup := by
  have hhas : ∀ u ∈ (res.unit :: res.closure).map BuildUnit.key, g.Has u := fun u hu =>
    h.has_iff.2 (List.mem_map.1 hu)
  have hlabels := h.nodup_keys.map_on fun u hu v hv heq =>
    UnitKey.eq_of_label_eq (hnames u (hhas u hu)) (hnames v (hhas v hv)) heq
  rwa [List.map_map] at hlabels

theorem IsRead.get?_graph (h : IsRead g flags requested walk res) {id : String}
    {dependencies : List String} :
    res.graph.get? id = some dependencies ↔ ∃ unit ∈ res.unit :: res.closure,
      unit.key.label = id ∧ unit.deps.map UnitKey.label = dependencies := by
  have hnodup : ((res.closure ++ [res.unit]).map fun unit => unit.key.label).Nodup :=
    ((List.perm_append_singleton res.unit res.closure).map _).nodup_iff.2 (h.nodup_labels hnames)
  refine (BuildGraph.get?_foldl_add hnodup).trans (exists_congr fun unit => ?_)
  simp [or_comm]

/-- The graph has the labels of the units. -/
theorem IsRead.get?_graph_ne_none_iff (h : IsRead g flags requested walk res) {id : String} :
    res.graph.get? id ≠ none ↔ ∃ u, g.Has u ∧ u.label = id := by
  simp only [Option.ne_none_iff_exists', h.get?_graph hnames, h.has_iff]
  constructor
  · rintro ⟨_, unit, hunit, rfl, -⟩
    exact ⟨unit.key, ⟨unit, hunit, rfl⟩, rfl⟩
  · rintro ⟨_, ⟨unit, hunit, rfl⟩, rfl⟩
    exact ⟨_, unit, hunit, rfl, rfl⟩

/-- In the graph of labels a unit depends on the labels of the units that it leads to. -/
theorem IsRead.dependsOn_graph_iff (h : IsRead g flags requested walk res) (hu : g.Has u)
    (id : String) : res.graph.DependsOn u.label id ↔ ∃ v, g.Leads u v ∧ v.label = id := by
  unfold BuildGraph.DependsOn
  simp only [h.get?_graph hnames]
  constructor
  · rintro ⟨_, ⟨unit, hunit, hlabel, rfl⟩, hid⟩
    have hkey := UnitKey.eq_of_label_eq (hnames _ (h.has_iff.2 ⟨unit, hunit, rfl⟩)) (hnames u hu)
      hlabel
    obtain ⟨v, hv, rfl⟩ := List.mem_map.1 hid
    exact ⟨v, hkey ▸ ((h.of_mem hunit).2 v).1 hv, rfl⟩
  · rintro ⟨v, hleads, rfl⟩
    obtain ⟨unit, hunit, rfl⟩ := h.has_iff.1 hu
    exact ⟨_, ⟨unit, hunit, rfl, rfl⟩, List.mem_map_of_mem (((h.of_mem hunit).2 v).2 hleads)⟩

/-! ## Layers -/

theorem IsRead.exists_groups (h : IsRead g flags requested walk res) :
    ∃ groups, res.groups = .ok groups ∧ res.graph.groups = .ok groups := by
  have hstep := fun u hu => h.dependsOn_graph_iff hnames (u := u) hu
  have hdefined : ∀ id dependency, res.graph.DependsOn id dependency →
      res.graph.get? dependency ≠ none := by
    intro id dependency hdepends
    have hid : res.graph.get? id ≠ none := by
      obtain ⟨dependencies, hget, -⟩ := hdepends
      simp [hget]
    obtain ⟨u, hu, rfl⟩ := (h.get?_graph_ne_none_iff hnames).1 hid
    obtain ⟨v, hleads, rfl⟩ := (hstep u hu _).1 hdepends
    exact (h.get?_graph_ne_none_iff hnames).2 ⟨v, hleads.has, rfl⟩
  obtain ⟨groups, hgroups⟩ := BuildGraph.exists_groups hdefined fun id hid => by
    obtain ⟨u, hu, rfl⟩ := (h.get?_graph_ne_none_iff hnames).1 hid
    exact acc_of_step (fun _ _ _ hleads => hleads.has) hstep hu (h.last.acc_leads hu)
  refine ⟨groups, ?_, hgroups⟩
  unfold Resolved.groups
  rw [BuildGraph.validate_eq_ok_iff.2 hdefined]
  exact hgroups

/-- The group of a unit is that of its height. -/
theorem IsRead.inGroup_iff (h : IsRead g flags requested walk res) {groups : List (List String)}
    (hgroups : res.graph.groups = .ok groups) (hu : g.Has u) {i : Nat} :
    BuildGraph.InGroup groups i u.label ↔ HasHeight g.Leads u i := by
  have hstep := fun u hu => h.dependsOn_graph_iff hnames (u := u) hu
  rw [BuildGraph.inGroup_iff hgroups,
    hasHeight_iff_of_step (fun _ _ _ hleads => hleads.has) hstep hu]
  exact and_iff_right ((h.get?_graph_ne_none_iff hnames).2 ⟨u, hu, rfl⟩)

theorem IsRead.perm_labels (h : IsRead g flags requested walk res) {groups : List (List String)}
    (hgroups : res.graph.groups = .ok groups) :
    groups.flatten.Perm ((res.unit :: res.closure).map fun unit => unit.key.label) := by
  obtain ⟨-, hperm⟩ := BuildGraph.groups_eq_ok_iff.1 hgroups
  refine hperm.trans ?_
  rw [List.perm_ext_iff_of_nodup res.graph.units.nodup_keys (h.nodup_labels hnames)]
  intro id
  rw [BuildGraph.mem_keys_iff, h.get?_graph_ne_none_iff hnames, List.mem_map]
  constructor
  · rintro ⟨u, hu, rfl⟩
    obtain ⟨unit, hunit, rfl⟩ := h.has_iff.1 hu
    exact ⟨unit, hunit, rfl⟩
  · rintro ⟨unit, hunit, rfl⟩
    exact ⟨unit.key, h.has_iff.2 ⟨unit, hunit, rfl⟩, rfl⟩

/-- Every unit is in a group. -/
theorem IsRead.exists_inGroup (h : IsRead g flags requested walk res)
    {groups : List (List String)} (hgroups : res.graph.groups = .ok groups) (hu : g.Has u) :
    ∃ i, BuildGraph.InGroup groups i u.label := by
  apply BuildGraph.mem_flatten_iff_inGroup.1
  rw [(h.perm_labels hnames hgroups).mem_iff]
  obtain ⟨unit, hunit, rfl⟩ := h.has_iff.1 hu
  exact List.mem_map_of_mem hunit

/-- The root is above all other units. -/
theorem IsRead.eq_rootKey_of_inGroup (h : IsRead g flags requested walk res)
    {groups : List (List String)} (hgroups : res.graph.groups = .ok groups) {i j : Nat}
    (hroot : BuildGraph.InGroup groups i g.rootKey.label) {id : String}
    (hid : BuildGraph.InGroup groups j id) (hij : i ≤ j) : id = g.rootKey.label ∧ i = j := by
  have hhas : g.Has g.rootKey := UnitGraph.has_rootKey
  have hi := (h.inGroup_iff hnames hgroups hhas).1 hroot
  have hget := ((BuildGraph.inGroup_iff hgroups).1 hid).1
  obtain ⟨u, hu, rfl⟩ := (h.get?_graph_ne_none_iff hnames).1 hget
  have hj := (h.inGroup_iff hnames hgroups hu).1 hid
  rcases reflTransGen_iff_eq_or_transGen.1 (UnitGraph.has_iff_reflTransGen.1 hu) with rfl | hway
  · exact ⟨rfl, hi.unique hj⟩
  · exact absurd (hi.lt_of_transGen hj hway) (Nat.not_lt.2 hij)

/-- The root comes last and alone. -/
theorem IsRead.getLast?_groups (h : IsRead g flags requested walk res)
    {groups : List (List String)} (hgroups : res.graph.groups = .ok groups) :
    groups.getLast? = some [g.rootKey.label] := by
  obtain ⟨i, group, hgroup, hmem⟩ := h.exists_inGroup hnames hgroups UnitGraph.has_rootKey
  have hroot : BuildGraph.InGroup groups i g.rootKey.label := ⟨group, hgroup, hmem⟩
  have hsublist := BuildGraph.sublist_keys_of_groups hgroups
  have halone : group = [g.rootKey.label] := by
    have hnodup : group.Nodup :=
      (hsublist group (List.mem_of_getElem? hgroup)).2.nodup res.graph.units.nodup_keys
    rw [← List.perm_singleton, List.perm_ext_iff_of_nodup hnodup (List.nodup_singleton _)]
    intro id
    rw [List.mem_singleton]
    constructor
    · intro hid
      exact (h.eq_rootKey_of_inGroup hnames hgroups hroot ⟨group, hgroup, hid⟩ (Nat.le_refl i)).1
    · rintro rfl
      exact hmem
  -- a group after this one would hold a unit that is not below the root
  have hlast : groups.length = i + 1 := by
    apply Nat.le_antisymm _ (List.getElem?_eq_some_iff.1 hgroup).1
    by_contra hlong
    have hnext := List.getElem?_eq_getElem (Nat.lt_of_not_le hlong)
    obtain ⟨id, hid⟩ :=
      List.exists_mem_of_ne_nil _ (hsublist _ (List.mem_of_getElem? hnext)).1
    have heq :=
      (h.eq_rootKey_of_inGroup hnames hgroups hroot ⟨_, hnext, hid⟩ (Nat.le_succ i)).2
    exact Nat.succ_ne_self i heq.symm
  rw [List.getLast?_eq_getElem?, hlast, Nat.add_sub_cancel, hgroup, halone]

theorem IsRead.isLayered (h : IsRead g flags requested walk res) {groups : List (List String)}
    (hgroups : res.graph.groups = .ok groups) : res.IsLayered groups := by
  have hhas : ∀ unit ∈ res.unit :: res.closure, g.Has unit.key := fun unit hunit =>
    h.has_iff.2 ⟨unit, hunit, rfl⟩
  have hheight : ∀ u, g.Has u → ∀ i,
      (BuildGraph.InGroup groups i u.label ↔ HasHeight g.Leads u i) := fun u hu i =>
    h.inGroup_iff hnames hgroups hu
  have hsublist := BuildGraph.sublist_keys_of_groups hgroups
  refine ⟨h.nodup_labels hnames, h.perm_labels hnames hgroups, ?_, ?_, ?_, ?_, ?_, ?_⟩
  · intro unit hunit i
    rw [h.dependsOn_eq]
    exact hheight unit.key (hhas unit hunit) i
  · intro unit hunit i hi d hd
    have hleads := ((h.of_mem hunit).2 d).1 hd
    obtain ⟨j, hj⟩ := h.exists_inGroup hnames hgroups hleads.has
    refine ⟨j, ?_, hj⟩
    exact ((hheight _ (hhas unit hunit) i).1 hi).lt_of_step ((hheight d hleads.has j).1 hj) hleads
  · intro unit hunit i hi
    have hi' := (hheight _ (hhas unit hunit) _).1 hi
    cases hi'.descends with
    | @succ _ _ d hleads hrest =>
      obtain ⟨j, hj⟩ := h.exists_inGroup hnames hgroups hleads.has
      have hj' := (hheight d hleads.has j).1 hj
      -- the way below this dependency is as long as any, and no longer
      have hji : j = i :=
        Nat.le_antisymm (Nat.le_of_lt_succ (hi'.lt_of_step hj' hleads)) (hj'.longest i hrest)
      exact ⟨d, ((h.of_mem hunit).2 d).2 hleads, hji ▸ hj⟩
  · exact fun group hgroup => (hsublist group hgroup).1
  · exact fun group hgroup => res.graph.pairwise_keys.sublist (hsublist group hgroup).2
  · rw [h.key_eq]
    exact h.getLast?_groups hnames hgroups

end

/-! ## Hosts -/

section

variable {table : RuleTable} {settings : Settings} {r : Resolver} {platform : Platform}

/-- A host that is configured has been read as a platform. -/
theorem isName_hostFor (hr : Resolver.ofSettings table settings = .ok r)
    (hplatform : Platform.IsName platform.text) : Platform.IsName (r.hostFor platform).text := by
  unfold Resolver.ofSettings at hr
  split at hr
  · cases hr
    exact hplatform
  · next id _ =>
    cases hname : Platform.ofName id with
    | error e =>
      rw [hname] at hr
      cases hr
    | ok host =>
      rw [hname] at hr
      obtain ⟨hid, rfl⟩ := Platform.ofName_eq_ok_iff.1 hname
      dsimp only [bind, Except.bind] at hr
      split at hr
      · cases hr
        exact hid
      · cases hr

/-- A resolved target always has groups, and they are the layers of what it depends on. -/
theorem groups_layered {rule : Rule} {res : Resolved}
    (hr : Resolver.ofSettings table settings = .ok r) (hplatform : Platform.IsName platform.text)
    (h : r.resolveRule rule platform = .ok (.compatible res)) :
    ∃ groups, res.groups = .ok groups ∧ res.IsLayered groups := by
  obtain ⟨requested, walk, hread⟩ := exists_isRead h
  have hnames : ∀ u, (r.graph rule platform).Has u → Platform.IsName u.platform.text := by
    intro u hu
    rcases hu.platform with hside | hside
    · rw [hside]
      exact hplatform
    · rw [hside]
      exact isName_hostFor hr hplatform
  obtain ⟨groups, htold, hgroups⟩ := hread.exists_groups hnames
  exact ⟨groups, htold, hread.isLayered hnames hgroups⟩

theorem groups_layered_crossed :
    Platform.IsName "wasm32" ∧
      ∃ groups, crossResult.groups = .ok groups ∧ crossResult.IsLayered groups :=
  ⟨by decide, groups_layered ofSettings_crossed (by decide) resolveRule_crossed⟩

/-- What runs on the host is built side by side with what it does not need. -/
example : crossResult.groups = .ok
    [ ["base (wasm32)", "base (x86_64-unknown-linux-gnu)"],
      ["derive (x86_64-unknown-linux-gnu)", "gen (x86_64-unknown-linux-gnu)"],
      ["app (wasm32)"] ] := by
  decide +kernel

end

end Resolver

end BuildRules
