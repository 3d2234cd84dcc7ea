import BuildRules.Proofs.Rule.Constraint
import Mathlib.Data.List.Nodup

/-!
# Spellings of conditions

A platform can be told in many ways, and its name is the shortest of them. Conditions may be spelled
anew by the names of their platforms: they make the same constraint map as before, unless the name
of one of the platforms looks like a label, which names no platform. Main statement:
`ofConditions_respelled`.
-/

namespace BuildRules

/-- Entries with keys of their own are those of their map. -/
theorem SortedMap.toList_ofList_perm {κ ν : Type} [Ord κ] [Std.TransOrd κ] [Std.LawfulEqOrd κ]
    [DecidableEq κ] {l : List (κ × ν)} (hl : (l.map Prod.fst).Nodup) :
    (ofList l).toList.Perm l := by
  refine (List.perm_ext_iff_of_nodup (nodup_toList _) (hl.of_map Prod.fst)).2 fun e => ?_
  refine mem_toList_iff.trans (get?_ofList_eq_some_iff fun k v v' hv hv' => ?_)
  exact congrArg Prod.snd (List.inj_on_of_nodup_map hl hv hv' rfl)

/-! ## Conditions spelled anew -/

namespace Conditions

/-- A condition spelled by the name of its platform. The default condition and what names no
platform are left as they are. -/
def respell (condition : String) : String :=
  if condition = defaultCondition then condition
  else
    match Platform.ofLabel condition with
    | .ok p => p.text
    | .error _ => condition

/-- Conditions are others with their labels, spelled anew. Where two of the others come to one
spelling there are none that are. -/
def Respells (conditions conditions' : Conditions) : Prop :=
  conditions'.toList.Perm (conditions.toList.map fun c => (respell c.1, c.2))

variable {condition : String} {p : Platform}

theorem respell_of_standsFor (h : StandsFor condition p) : respell condition = p.text := by
  rw [respell, if_neg h.1, Platform.ofLabel_eq_ok_iff.2 h.2]

theorem respell_of_not_standsFor (h : ∀ p, ¬ StandsFor condition p) :
    respell condition = condition := by
  unfold respell
  split
  · rfl
  · next hdefault =>
    -- a text that is read stands for what is read
    split
    · next p hread => exact absurd ⟨hdefault, Platform.ofLabel_eq_ok_iff.1 hread⟩ (h p)
    · rfl

/-- The default condition is a label with a colon, so it is not the name of a platform. -/
theorem text_ne_defaultCondition {text : String} (h : Platform.NamedBy text p) :
    p.text ≠ defaultCondition := by
  intro heq
  have hlabel : Platform.IsLabel p.text := by
    rw [heq]
    exact Text.hasDoubleSlash_iff.1 (by decide)
  apply h.colon_not_mem hlabel
  rw [heq]
  decide

theorem respell_eq_defaultCondition_iff :
    respell condition = defaultCondition ↔ condition = defaultCondition := by
  constructor
  · intro h
    by_cases hstands : ∃ p, StandsFor condition p
    · obtain ⟨p, hp⟩ := hstands
      rw [respell_of_standsFor hp] at h
      exact absurd h (text_ne_defaultCondition hp.2)
    · rwa [respell_of_not_standsFor (not_exists.1 hstands)] at h
  · intro h
    rw [respell, if_pos h, h]

/-- Conditions stand for platforms whose names do not look like labels. -/
def StandPlainly (conditions : List String) : Prop :=
  ∀ condition ∈ conditions, ∀ p, StandsFor condition p → ¬ Platform.IsLabel p.text

variable {conditions : List String}

theorem StandsFor.respell (h : StandsFor condition p) (hplain : ¬ Platform.IsLabel p.text) :
    StandsFor (respell condition) p := by
  rw [respell_of_standsFor h]
  exact ⟨text_ne_defaultCondition h.2, h.2.text_of_not_isLabel hplain⟩

theorem NamePlatforms.standsFor_respell_iff (h : NamePlatforms conditions)
    (hplain : StandPlainly conditions) (hmem : condition ∈ conditions) :
    StandsFor (respell condition) p ↔ StandsFor condition p := by
  constructor
  · intro hp
    have hdefault : condition ≠ defaultCondition := mt respell_eq_defaultCondition_iff.2 hp.1
    obtain ⟨q, hq⟩ := h.valid condition hmem hdefault
    rw [hp.unique (hq.respell (hplain condition hmem q hq))]
    exact hq
  · intro hp
    exact hp.respell (hplain condition hmem p hp)

theorem NamePlatforms.respell (h : NamePlatforms conditions) (hplain : StandPlainly conditions) :
    NamePlatforms (conditions.map respell) where
  valid _ hmem hdefault := by
    obtain ⟨condition, hcondition, rfl⟩ := List.mem_map.1 hmem
    have hdefault' := mt respell_eq_defaultCondition_iff.2 hdefault
    obtain ⟨p, hp⟩ := h.valid condition hcondition hdefault'
    exact ⟨p, hp.respell (hplain condition hcondition p hp)⟩
  distinct _ hfirst _ hsecond p hp hp' := by
    obtain ⟨condition, hcondition, rfl⟩ := List.mem_map.1 hfirst
    obtain ⟨condition', hcondition', rfl⟩ := List.mem_map.1 hsecond
    rw [h.standsFor_respell_iff hplain hcondition] at hp
    rw [h.standsFor_respell_iff hplain hcondition'] at hp'
    rw [h.distinct condition hcondition condition' hcondition' p hp hp']

theorem NamePlatforms.nodup_map_respell (h : NamePlatforms conditions)
    (hplain : StandPlainly conditions) (hnodup : conditions.Nodup) :
    (conditions.map Conditions.respell).Nodup := by
  refine hnodup.map_on fun condition hcondition condition' hcondition' heq => ?_
  by_cases hdefault : condition = defaultCondition
  · rw [hdefault, respell_eq_defaultCondition_iff.2 rfl, eq_comm,
      respell_eq_defaultCondition_iff] at heq
    rw [hdefault, heq]
  · obtain ⟨p, hp⟩ := h.valid condition hcondition hdefault
    have hp' := hp
    rw [← h.standsFor_respell_iff hplain hcondition, heq,
      h.standsFor_respell_iff hplain hcondition'] at hp'
    exact h.distinct condition hcondition condition' hcondition' p hp hp'

/-- Conditions that name platforms once they are spelled anew named them before, and by names that
do not look like labels. -/
theorem NamePlatforms.of_respell (h : NamePlatforms (conditions.map Conditions.respell))
    (hnodup : (conditions.map Conditions.respell).Nodup) :
    NamePlatforms conditions ∧ StandPlainly conditions := by
  refine ⟨⟨fun condition hmem hdefault => ?_, ?_⟩, fun condition hmem p hp hlabel => ?_⟩
  · refine Classical.byContradiction fun hnone => hnone ?_
    have hsame := respell_of_not_standsFor (not_exists.1 hnone)
    have hvalid := h.valid (Conditions.respell condition) (List.mem_map_of_mem hmem)
    rw [hsame] at hvalid
    exact hvalid hdefault
  · intro condition hmem condition' hmem' p hp hp'
    apply List.inj_on_of_nodup_map hnodup hmem hmem'
    rw [respell_of_standsFor hp, respell_of_standsFor hp']
  · have hvalid := h.valid (Conditions.respell condition) (List.mem_map_of_mem hmem)
    rw [respell_of_standsFor hp] at hvalid
    obtain ⟨q, hq⟩ := hvalid (text_ne_defaultCondition hp.2)
    exact hp.2.not_text_of_isLabel hlabel hq.2

section

variable {conditions conditions' : Conditions} {labels : List String}

theorem Respells.keys_perm (h : Respells conditions conditions') :
    conditions'.keys.Perm (conditions.keys.map respell) := by
  have hkeys := h.map Prod.fst
  rw [List.map_map] at hkeys
  rw [SortedMap.keys, SortedMap.keys, List.map_map]
  exact hkeys

theorem Respells.mem_toList_iff (h : Respells conditions conditions') :
    (condition, labels) ∈ conditions'.toList ↔
      ∃ old, (old, labels) ∈ conditions.toList ∧ respell old = condition := by
  rw [h.mem_iff, List.mem_map]
  constructor
  · rintro ⟨⟨old, labels'⟩, hmem, heq⟩
    cases heq
    exact ⟨old, hmem, rfl⟩
  · rintro ⟨old, hmem, rfl⟩
    exact ⟨(old, labels), hmem, rfl⟩

theorem NamePlatforms.perm {l l' : List String} (h : NamePlatforms l) (hperm : l.Perm l') :
    NamePlatforms l' where
  valid condition hmem := h.valid condition (hperm.mem_iff.2 hmem)
  distinct first hfirst second hsecond :=
    h.distinct first (hperm.mem_iff.2 hfirst) second (hperm.mem_iff.2 hsecond)

/-- Conditions can be spelled anew as conditions that name platforms exactly if they name platforms,
and by names that do not look like labels. -/
theorem exists_respells_iff :
    (∃ conditions', Respells conditions conditions' ∧ NamePlatforms conditions'.keys) ↔
      NamePlatforms conditions.keys ∧ StandPlainly conditions.keys := by
  constructor
  · rintro ⟨conditions', hspell, hnames⟩
    refine (hnames.perm hspell.keys_perm).of_respell ?_
    exact hspell.keys_perm.nodup_iff.1 (SortedMap.nodup_keys conditions')
  · rintro ⟨hnames, hplain⟩
    have hnodup := hnames.nodup_map_respell hplain (SortedMap.nodup_keys conditions)
    have hspell : Respells conditions
        (.ofList (conditions.toList.map fun c => (respell c.1, c.2))) := by
      apply SortedMap.toList_ofList_perm
      rw [SortedMap.keys, List.map_map] at hnodup
      rw [List.map_map]
      exact hnodup
    exact ⟨_, hspell, (hnames.respell hplain).perm hspell.keys_perm.symm⟩

end

end Conditions

/-! ## Their maps -/

namespace ConstraintMap

open Conditions

variable {map map' : ConstraintMap} {conditions conditions' : Conditions}

/-- None of the platforms of a map has a name that looks like a label. -/
def IsPlain (map : ConstraintMap) : Prop := ∀ p ∈ map.platforms, ¬ Platform.IsLabel p.text

theorem Holds.mem_platforms_iff {p : Platform} (h : map.Holds conditions.toList) :
    p ∈ map.platforms ↔ ∃ condition ∈ conditions.keys, StandsFor condition p := by
  simp only [platforms, SortedMap.keys, List.mem_map, Prod.exists, SortedMap.mem_toList_iff,
    exists_and_right, exists_eq_right, h.get?_iff]
  constructor
  · rintro ⟨labels, condition, hmem, hp⟩
    exact ⟨condition, ⟨labels, hmem⟩, hp⟩
  · rintro ⟨condition, ⟨labels, hmem⟩, hp⟩
    exact ⟨labels, condition, hmem, hp⟩

theorem Holds.isPlain_iff (h : map.Holds conditions.toList) :
    map.IsPlain ↔ StandPlainly conditions.keys := by
  constructor
  · intro hplain condition hmem p hp
    exact hplain p (h.mem_platforms_iff.2 ⟨condition, hmem, hp⟩)
  · intro hplain p hp
    obtain ⟨condition, hmem, hstands⟩ := h.mem_platforms_iff.1 hp
    exact hplain condition hmem p hstands

/-- Conditions spelled anew make the same map. -/
theorem Holds.eq_of_respells (h : map.Holds conditions.toList)
    (hplain : StandPlainly conditions.keys) (hspell : Respells conditions conditions')
    (h' : map'.Holds conditions'.toList) : map' = map := by
  have hentries : map'.entries = map.entries := by
    refine SortedMap.ext_get? fun p => Option.ext fun labels => ?_
    simp only [h'.get?_iff, h.get?_iff, hspell.mem_toList_iff]
    constructor
    · rintro ⟨_, ⟨condition, hmem, rfl⟩, hp⟩
      rw [h.names.standsFor_respell_iff hplain (List.mem_map_of_mem hmem)] at hp
      exact ⟨condition, hmem, hp⟩
    · rintro ⟨condition, hmem, hp⟩
      rw [← h.names.standsFor_respell_iff hplain (List.mem_map_of_mem hmem)] at hp
      exact ⟨_, ⟨condition, hmem, rfl⟩, hp⟩
  have hfallback : map'.fallback = map.fallback := by
    refine Option.ext fun labels => ?_
    simp only [h'.fallback_iff, h.fallback_iff, hspell.mem_toList_iff,
      respell_eq_defaultCondition_iff, exists_eq_right]
  cases map
  cases map'
  cases hentries
  cases hfallback
  rfl

/-- Whatever names a platform, the name of the platform is accepted where a name alone is asked for,
and where a label may stand it is read as the platform again, or else looks like a label itself and
is refused. Conditions can be spelled anew by the names of their platforms and make a map exactly if
they make one as they are and none of its platforms has a name that looks like a label; and then it
is the same map. -/
theorem ofConditions_respelled (text : String) (conditions : Conditions) :
    (∀ p, Platform.ofLabel text = .ok p →
      Platform.ofName p.text = .ok p ∧
        (Platform.ofLabel p.text = .ok p ↔ ¬ Platform.IsLabel p.text) ∧
        (Platform.IsLabel p.text → Platform.ofLabel p.text = .error (.invalidPlatform p.text))) ∧
      ((∃ conditions', Respells conditions conditions' ∧
          ∃ map, ofConditions conditions' = .ok map) ↔
        ∃ map, ofConditions conditions = .ok map ∧ map.IsPlain) ∧
      ∀ conditions' map, Respells conditions conditions' → ofConditions conditions = .ok map →
        map.IsPlain → ofConditions conditions' = .ok map := by
  refine ⟨fun p hread => ?_, ?_, ?_⟩
  · have hp := Platform.ofLabel_eq_ok_iff.1 hread
    exact ⟨Platform.ofName_eq_ok_iff.2 ⟨hp.name, rfl⟩, hp.ofLabel_text_iff,
      hp.ofLabel_text_eq_error⟩
  · simp only [exists_ofConditions_iff, exists_respells_iff]
    constructor
    · rintro ⟨hnames, hplain⟩
      obtain ⟨map, hmade⟩ := exists_ofConditions_iff.2 hnames
      exact ⟨map, hmade, (holds_of_ofConditions hmade).isPlain_iff.2 hplain⟩
    · rintro ⟨map, hmade, hplain⟩
      have hholds := holds_of_ofConditions hmade
      exact ⟨hholds.names, hholds.isPlain_iff.1 hplain⟩
  · intro conditions' map hspell hmade hplain
    have hholds := holds_of_ofConditions hmade
    rw [hholds.isPlain_iff] at hplain
    have hnames := (hholds.names.respell hplain).perm hspell.keys_perm.symm
    obtain ⟨map', hmade'⟩ := exists_ofConditions_iff.2 hnames
    rw [hmade', hholds.eq_of_respells hplain hspell (holds_of_ofConditions hmade')]

/-- Two slashes may stand after the last colon of a label. -/
def slashed : Conditions := .ofList [("a:b//c", ["libc"])]

def slashedAnew : Conditions := .ofList [("b//c", ["libc"])]

/-- The platform of such a label is not read from its name, and conditions spelled anew by it make
no map. -/
theorem not_respelled_slashed :
    Platform.ofLabel "a:b//c" = .ok ⟨"b//c"⟩ ∧
      Platform.ofLabel "b//c" = .error (.invalidPlatform "b//c") ∧
      Respells slashed slashedAnew ∧
      ofConditions slashed = .ok { entries := .ofList [(⟨"b//c"⟩, ["libc"])] } ∧
      ofConditions slashedAnew = .error (.invalidPlatform "b//c") := by
  refine ⟨?_, ?_, ?_, ?_, ?_⟩
  · decide +kernel
  · decide +kernel
  · unfold Respells
    decide +kernel
  · decide +kernel
  · decide +kernel

end ConstraintMap

end BuildRules
