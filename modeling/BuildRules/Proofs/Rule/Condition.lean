import BuildRules.Proofs.Rule.Constraint

/-!
# Conditions lose nothing

The constraint map of some conditions has all that they say: each platform is given the labels of
the one condition that stands for it, any other platform those of the default condition, and every
label of every condition is a label of the map, as often as it is listed. Main statement:
`ofConditions_exact`.
-/

namespace BuildRules

open Conditions

namespace ConstraintMap

variable {map map' : ConstraintMap} {labels : List String}

/-! ## Labels -/

/-- The labels that are dependencies. -/
def dependencies (labels : List String) : List String := labels.filter (· ≠ incompatibleLabel)

theorem dependencies_append (labels labels' : List String) :
    dependencies (labels ++ labels') = dependencies labels ++ dependencies labels' :=
  List.filter_append ..

theorem allLabels_eq (map : ConstraintMap) :
    map.allLabels = dependencies (map.entries.values.flatten ++ map.fallback.getD []) := rfl

theorem allLabels_setPlatform {p : Platform} (hnew : map.entries.get? p = none) :
    (map.setPlatform p labels).allLabels.Perm (map.allLabels ++ dependencies labels) := by
  have hvalues : (map.entries.insert p labels).values.Perm (labels :: map.entries.values) :=
    (SortedMap.toList_insert_perm hnew labels).map _
  have hoffered : ((map.entries.insert p labels).values.flatten ++ map.fallback.getD []).Perm
      ((map.entries.values.flatten ++ map.fallback.getD []) ++ labels) := by
    apply (hvalues.flatten.append_right _).trans
    simp only [List.flatten_cons, List.append_assoc]
    exact List.perm_append_comm.trans (by simp)
  simp only [allLabels_eq, ← dependencies_append]
  exact hoffered.filter _

theorem allLabels_setFallback (hnew : map.fallback = none) :
    (map.setFallback labels).allLabels = map.allLabels ++ dependencies labels := by
  simp [allLabels_eq, setFallback, hnew, dependencies]

/-- One more condition adds its labels to those of the map. -/
theorem Holds.allLabels_addCondition {conditions : List (String × List String)}
    {condition : String} (h : map.Holds conditions) (hnew : condition ∉ conditions.map Prod.fst)
    (hadd : map.addCondition (condition, labels) = .ok map') :
    map'.allLabels.Perm (map.allLabels ++ dependencies labels) := by
  unfold ConstraintMap.addCondition at hadd
  dsimp only at hadd
  split at hadd
  · next hdefault =>
    cases hadd
    -- a fallback that was there already would be a second default condition
    have hnone : map.fallback = none := by
      apply Option.eq_none_iff_forall_ne_some.2
      intro labels' hlabels
      exact hnew (List.mem_map.2 ⟨_, (h.fallback_iff labels').1 hlabels, hdefault.symm⟩)
    exact .of_eq (allLabels_setFallback hnone)
  · rcases bind_eq_ok_iff.1 hadd with ⟨p, -, hset⟩
    split at hset
    · cases hset
    · next hfree =>
      cases hset
      apply allLabels_setPlatform
      simpa [SortedMap.contains] using hfree

/-- The labels of the map are those of the conditions. -/
theorem ofConditions_meets_allLabels {conditions : Conditions} :
    Meets (ofConditions conditions)
      (fun map => map.Holds conditions.toList ∧
        map.allLabels.Perm (dependencies conditions.values.flatten))
      (fun _ => True) := by
  -- what the map holds is needed too: it makes the platform of each condition a new one
  refine Meets.foldlM (fun past map => Holds map past ∧
    (allLabels map).Perm (dependencies (past.map Prod.snd).flatten)) ⟨holds_nil, .refl _⟩ ?_
  intro past c rest map hsplit hpast
  have hnew : c.1 ∉ past.map Prod.fst := SortedMap.not_mem_of_toList_eq hsplit
  refine ((hpast.1.addCondition hnew).mono (fun _ h => h) fun _ _ => trivial).and_of_ok ?_
  intro map' hadd
  have hlabels := (hpast.1.allLabels_addCondition hnew hadd).trans (hpast.2.append_right _)
  simpa [dependencies_append] using hlabels

/-! ## Platforms -/

/-- The map gives what the conditions say. -/
structure Keeps (map : ConstraintMap) (conditions : Conditions) : Prop where
  own : ∀ condition labels p, conditions.get? condition = some labels →
    StandsFor condition p → map.lookup p = some (labels, false)
  fallback : ∀ p, (∀ condition ∈ conditions.keys, ¬ StandsFor condition p) →
    map.lookup p = (conditions.get? defaultCondition).map fun labels => (labels, true)
  allLabels : map.allLabels.Perm (dependencies conditions.values.flatten)

theorem Holds.lookup_eq_own {conditions : List (String × List String)} {condition : String}
    {p : Platform} (h : map.Holds conditions) (hmem : (condition, labels) ∈ conditions)
    (hp : StandsFor condition p) : map.lookup p = some (labels, false) := by
  have hentry := (h.get?_iff p labels).2 ⟨condition, hmem, hp⟩
  simp only [lookup, hentry]

theorem Holds.lookup_eq_fallback {conditions : List (String × List String)} {p : Platform}
    (h : map.Holds conditions) (hfree : ∀ condition ∈ conditions.map Prod.fst,
      ¬ StandsFor condition p) :
    map.lookup p = map.fallback.map fun labels => (labels, true) := by
  have hnone : map.entries.get? p = none := by
    apply Option.eq_none_iff_forall_ne_some.2
    intro labels hlabels
    rcases (h.get?_iff p labels).1 hlabels with ⟨condition, hmem, hp⟩
    exact hfree condition (List.mem_map_of_mem hmem) hp
  simp only [lookup, hnone]

theorem Holds.keeps {conditions : Conditions} (h : map.Holds conditions.toList)
    (hlabels : map.allLabels.Perm (dependencies conditions.values.flatten)) :
    map.Keeps conditions where
  own condition labels p hget hp := h.lookup_eq_own (SortedMap.mem_toList_iff.2 hget) hp
  fallback p hfree := by
    have hdefault : map.fallback = conditions.get? defaultCondition := by
      apply Option.ext
      intro labels
      rw [h.fallback_iff labels, SortedMap.mem_toList_iff]
    rw [h.lookup_eq_fallback hfree, hdefault]
  allLabels := hlabels

/-- Conditions make a map exactly if all but the default one stand for platforms of their own, and
the map keeps them; if not, the error tells of conditions that are really at fault. -/
theorem ofConditions_exact (conditions : Conditions) :
    ((∃ map, ofConditions conditions = .ok map) ↔ NamePlatforms conditions.keys) ∧
    (∀ map, ofConditions conditions = .ok map → map.Keeps conditions) ∧
    ∀ e, ofConditions conditions = .error e → Faults conditions.keys e := by
  have hmeets : Meets (ofConditions conditions) _ _ := ofConditions_meets
  have hlabels : Meets (ofConditions conditions) _ _ := ofConditions_meets_allLabels
  refine ⟨exists_ofConditions_iff, fun map hmade => ?_, fun e hmade => ?_⟩
  · rw [hmade] at hmeets hlabels
    exact hmeets.keeps hlabels.2
  · rw [hmade] at hmeets
    exact hmeets

end ConstraintMap

end BuildRules
