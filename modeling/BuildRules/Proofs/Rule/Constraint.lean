import BuildRules.Proofs.Platform
import BuildRules.Proofs.Rule.Check

/-!
# Constraint maps from conditions

Conditions make a constraint map when all of them but the default one name platforms, and no two of
them name the same one. The map then has the labels of each condition under the platform that the
condition names, whichever way it names it. Main statement: `ofConditions_meets`.
-/

namespace BuildRules

/-! ## Conditions -/

namespace Conditions

/-- A condition stands for one platform; the default condition does not. -/
def StandsFor (condition : String) (p : Platform) : Prop :=
  condition ≠ defaultCondition ∧ Platform.NamedBy condition p

/-- Every condition but the default one stands for a platform of its own. -/
structure NamePlatforms (conditions : List String) : Prop where
  valid : ∀ condition ∈ conditions, condition ≠ defaultCondition → ∃ p, StandsFor condition p
  distinct : ∀ condition ∈ conditions, ∀ condition' ∈ conditions, ∀ p,
    StandsFor condition p → StandsFor condition' p → condition = condition'

/-- What an error says about the conditions that it is found in. -/
def Faults (conditions : List String) : RuleError → Prop
  | .duplicateCondition name =>
    ∃ condition ∈ conditions, ∃ condition' ∈ conditions, condition ≠ condition' ∧
      StandsFor condition ⟨name⟩ ∧ StandsFor condition' ⟨name⟩
  | .invalidPlatform id =>
    ∃ condition ∈ conditions, condition ≠ defaultCondition ∧
      (∀ p, ¬ Platform.NamedBy condition p) ∧ id.toList <:+ condition.toList
  | _ => False

variable {conditions : List String} {condition : String}

theorem StandsFor.unique {p q : Platform} (hp : StandsFor condition p)
    (hq : StandsFor condition q) : p = q :=
  hp.2.unique hq.2

theorem Faults.mono {conditions' : List String} {e : RuleError} (h : Faults conditions e)
    (hsubset : conditions ⊆ conditions') : Faults conditions' e := by
  cases e with
  | duplicateCondition name =>
    obtain ⟨condition, hmem, condition', hmem', hboth⟩ := h
    exact ⟨condition, hsubset hmem, condition', hsubset hmem', hboth⟩
  | invalidPlatform id =>
    obtain ⟨condition, hmem, hinvalid⟩ := h
    exact ⟨condition, hsubset hmem, hinvalid⟩
  | _ => exact h

theorem namePlatforms_nil : NamePlatforms [] := ⟨nofun, nofun⟩

theorem NamePlatforms.concat (h : NamePlatforms conditions)
    (hvalid : condition ≠ defaultCondition → ∃ p, StandsFor condition p)
    (hnew : ∀ condition' ∈ conditions, ∀ p, StandsFor condition' p → ¬ StandsFor condition p) :
    NamePlatforms (conditions ++ [condition]) where
  valid condition' hmem hdefault := by
    rcases List.mem_append.1 hmem with hmem | hmem
    · exact h.valid condition' hmem hdefault
    · obtain rfl := List.mem_singleton.1 hmem
      exact hvalid hdefault
  distinct first hfirst second hsecond p hp hp' := by
    rcases List.mem_append.1 hfirst with hold | hlast <;>
      rcases List.mem_append.1 hsecond with hold' | hlast'
    · exact h.distinct first hold second hold' p hp hp'
    · obtain rfl := List.mem_singleton.1 hlast'
      exact absurd hp' (hnew first hold p hp)
    · obtain rfl := List.mem_singleton.1 hlast
      exact absurd hp (hnew second hold' p hp')
    · exact (List.mem_singleton.1 hlast).trans (List.mem_singleton.1 hlast').symm

/-- Of conditions that name platforms no error is true. -/
theorem NamePlatforms.not_faults (h : NamePlatforms conditions) (e : RuleError) :
    ¬ Faults conditions e := by
  cases e with
  | duplicateCondition name =>
    rintro ⟨condition, hmem, condition', hmem', hne, hp, hp'⟩
    exact hne (h.distinct condition hmem condition' hmem' _ hp hp')
  | invalidPlatform id =>
    rintro ⟨condition, hmem, hdefault, hinvalid, -⟩
    obtain ⟨p, hp⟩ := h.valid condition hmem hdefault
    exact hinvalid p hp.2
  | _ => exact id

end Conditions

/-! ## Their maps -/

namespace ConstraintMap

open Conditions

/-- The map has what the conditions say, each condition with its labels. -/
structure Holds (map : ConstraintMap) (conditions : List (String × List String)) : Prop where
  names : NamePlatforms (conditions.map Prod.fst)
  get?_iff : ∀ p labels, map.entries.get? p = some labels ↔
    ∃ condition, (condition, labels) ∈ conditions ∧ StandsFor condition p
  fallback_iff : ∀ labels, map.fallback = some labels ↔ (defaultCondition, labels) ∈ conditions

variable {map : ConstraintMap} {conditions : List (String × List String)} {condition : String}
variable {labels : List String}

theorem holds_nil : Holds {} [] where
  names := namePlatforms_nil
  get?_iff := by simp
  fallback_iff := by simp

theorem Holds.setFallback (h : map.Holds conditions)
    (hnew : defaultCondition ∉ conditions.map Prod.fst) :
    (map.setFallback labels).Holds (conditions ++ [(defaultCondition, labels)]) where
  names := by
    rw [List.map_append]
    exact h.names.concat (absurd rfl) fun _ _ _ _ hdefault => hdefault.1 rfl
  get?_iff p labels' := by
    refine (h.get?_iff p labels').trans (exists_congr fun condition => and_congr_left fun hp => ?_)
    simp [hp.1]
  fallback_iff labels' := by
    have hold : (defaultCondition, labels') ∉ conditions := fun hmem =>
      hnew (List.mem_map_of_mem hmem)
    simp [ConstraintMap.setFallback, hold, eq_comm]

theorem Holds.setPlatform {p : Platform} (h : map.Holds conditions) (hp : StandsFor condition p)
    (hnew : map.entries.get? p = none) :
    (map.setPlatform p labels).Holds (conditions ++ [(condition, labels)]) := by
  have hold : ∀ condition' labels', (condition', labels') ∈ conditions →
      ¬ StandsFor condition' p := by
    intro condition' labels' hmem hp'
    rw [(h.get?_iff p labels').2 ⟨condition', hmem, hp'⟩] at hnew
    cases hnew
  refine ⟨?_, fun q labels' => ?_, fun labels' => ?_⟩
  · rw [List.map_append]
    refine h.names.concat (fun _ => ⟨p, hp⟩) fun condition' hmem q hq hq' => ?_
    obtain ⟨⟨_, labels'⟩, hentry, rfl⟩ := List.mem_map.1 hmem
    obtain rfl := hp.unique hq'
    exact hold _ labels' hentry hq
  · rw [ConstraintMap.setPlatform, SortedMap.get?_insert]
    simp only [List.mem_append, List.mem_singleton, Prod.mk.injEq, or_and_right, exists_or]
    split
    · next hq =>
      subst hq
      constructor
      · intro hlabels
        exact .inr ⟨condition, ⟨rfl, (Option.some.inj hlabels).symm⟩, hp⟩
      · rintro (⟨condition', hmem, hq⟩ | ⟨_, ⟨rfl, rfl⟩, _⟩)
        · exact absurd hq (hold condition' labels' hmem)
        · rfl
    · next hq =>
      rw [h.get?_iff]
      refine (or_iff_left ?_).symm
      rintro ⟨_, ⟨rfl, -⟩, hq'⟩
      exact hq (hq'.unique hp)
  · simpa [ConstraintMap.setPlatform, hp.1.symm] using h.fallback_iff labels'

theorem Holds.addCondition (h : map.Holds conditions)
    (hnew : condition ∉ conditions.map Prod.fst) :
    Meets (map.addCondition (condition, labels))
      (fun map' => map'.Holds (conditions ++ [(condition, labels)]))
      (Faults ((conditions ++ [(condition, labels)]).map Prod.fst)) := by
  have hmem : condition ∈ (conditions ++ [(condition, labels)]).map Prod.fst := by simp
  unfold ConstraintMap.addCondition
  dsimp only
  split
  · next hdefault =>
    subst hdefault
    exact h.setFallback hnew
  · next hdefault =>
    have hread : Meets (Platform.ofLabel condition) (Platform.NamedBy condition)
        (Faults ((conditions ++ [(condition, labels)]).map Prod.fst)) := by
      refine Platform.ofLabel_meets.mono (fun _ hp => hp) fun e he => ?_
      obtain ⟨hinvalid, id, rfl, hsuffix⟩ := he
      exact ⟨condition, hmem, hdefault, hinvalid, hsuffix⟩
    refine hread.bind fun p hp => ?_
    split
    · next hcontains =>
      obtain ⟨labels', hget⟩ := Option.isSome_iff_exists.1 hcontains
      obtain ⟨condition', hentry, hp'⟩ := (h.get?_iff p labels').1 hget
      have hold : condition' ∈ conditions.map Prod.fst := List.mem_map_of_mem hentry
      refine ⟨condition', by simp [hold], condition, hmem, ?_, hp', hdefault, hp⟩
      rintro rfl
      exact hnew hold
    · next hcontains =>
      exact h.setPlatform ⟨hdefault, hp⟩ (by simpa [SortedMap.contains] using hcontains)

/-- Conditions that name platforms make the map that has what they say; others are refused with
what is wrong with one or two of them. -/
theorem ofConditions_meets {conditions : Conditions} :
    Meets (ofConditions conditions) (fun map => map.Holds conditions.toList)
      (Faults conditions.keys) := by
  refine Meets.foldlM (fun past map => Holds map past) holds_nil ?_
  rintro past ⟨condition, labels⟩ rest map hsplit hpast
  have hkeys : conditions.keys = past.map Prod.fst ++ condition :: rest.map Prod.fst := by
    rw [SortedMap.keys, hsplit, List.map_append, List.map_cons]
  have hnew : condition ∉ past.map Prod.fst := SortedMap.not_mem_of_toList_eq hsplit
  refine (hpast.addCondition hnew).mono (fun _ h => h) fun e he => he.mono ?_
  rw [hkeys, List.map_append]
  exact List.append_subset.2 ⟨List.subset_append_left _ _, by simp⟩

theorem holds_of_ofConditions {conditions : Conditions} (h : ofConditions conditions = .ok map) :
    map.Holds conditions.toList := by
  have hmeets : Meets (ofConditions conditions) _ _ := ofConditions_meets
  rwa [h] at hmeets

theorem exists_ofConditions_iff {conditions : Conditions} :
    (∃ map, ofConditions conditions = .ok map) ↔ NamePlatforms conditions.keys := by
  have hmeets : Meets (ofConditions conditions) _ _ := ofConditions_meets
  cases hmade : ofConditions conditions with
  | ok map =>
    rw [hmade] at hmeets
    exact iff_of_true ⟨map, rfl⟩ hmeets.names
  | error e =>
    rw [hmade] at hmeets
    exact iff_of_false nofun fun hnames => hnames.not_faults e hmeets

theorem Holds.offers_iff (h : map.Holds conditions) :
    map.Offers labels ↔ ∃ condition, (condition, labels) ∈ conditions := by
  have hvalues : labels ∈ map.entries.values ↔ ∃ p, map.entries.get? p = some labels := by
    simp [SortedMap.values, SortedMap.mem_toList_iff]
  rw [Offers, hvalues, h.fallback_iff]
  constructor
  · rintro (⟨p, hp⟩ | hfallback)
    · obtain ⟨condition, hmem, -⟩ := (h.get?_iff p labels).1 hp
      exact ⟨condition, hmem⟩
    · exact ⟨_, hfallback⟩
  · rintro ⟨condition, hmem⟩
    by_cases hdefault : condition = defaultCondition
    · exact .inr (hdefault ▸ hmem)
    · obtain ⟨p, hp⟩ := h.names.valid condition (List.mem_map_of_mem hmem) hdefault
      exact .inl ⟨p, (h.get?_iff p labels).2 ⟨condition, hmem, hp⟩⟩

end ConstraintMap

end BuildRules
