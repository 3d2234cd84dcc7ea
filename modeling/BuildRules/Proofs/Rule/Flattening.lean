import BuildRules.Proofs.Rule.Feature
import Mathlib.Logic.Relation

/-!
# What flattening amounts to

Flattening said of the texts of entries, with neither a work list nor a reader of entries, and said
of every order in which a work list can be gone through. Main statement: `flatten_exact`.
-/

namespace BuildRules

open Relation

/-! ## Texts of entries -/

namespace FeatureEntry

/-- The text is the name of a feature. -/
structure IsPlain (text : String) : Prop where
  notDep : ∀ name, text ≠ "dep:" ++ name
  noSlash : '/' ∉ text.toList

/-- The text does not start with `dep:`, and these stand before and after its first slash. -/
structure Splits (text before after : String) : Prop where
  notDep : ∀ name, text ≠ "dep:" ++ name
  eq : text = before ++ "/" ++ after
  first : '/' ∉ before.toList

variable {text name dependency feature : String}

theorem dropStart?_dep_eq_none_iff :
    Text.dropStart? "dep:" text = none ↔ ∀ name, text ≠ "dep:" ++ name := by
  simp only [Option.eq_none_iff_forall_ne_some, ne_eq, Text.dropStart?_eq_some_iff]

theorem cutFirst?_slash_eq_some_iff {before after : String} :
    Text.cutFirst? '/' text = some (before, after) ↔
      text = before ++ "/" ++ after ∧ '/' ∉ before.toList := by
  rw [Text.cutFirst?_eq_some_iff, ← String.toList_inj]
  simp

theorem dropLast?_mark_eq_some_iff :
    Text.dropLast? '?' text = some name ↔ text = name ++ "?" := by
  rw [Text.dropLast?_eq_some_iff, ← String.toList_inj, ← String.toList_inj]
  simp

theorem ofText_eq_dependency_iff : ofText text = .dependency name ↔ text = "dep:" ++ name := by
  rw [← Text.dropStart?_eq_some_iff, ofText]
  split
  · next found hfound => simp [hfound]
  · next hnone =>
    rw [hnone]
    split
    · simp
    · split <;> simp

theorem ofText_eq_feature_iff : ofText text = .feature name ↔ name = text ∧ IsPlain text := by
  constructor
  · intro h
    obtain rfl := eq_of_ofText_eq_feature h
    unfold ofText at h
    split at h
    · cases h
    · next hdep =>
      split at h
      · next hslash =>
        exact ⟨rfl, dropStart?_dep_eq_none_iff.1 hdep, Text.cutFirst?_eq_none_iff.1 hslash⟩
      · split at h <;> cases h
  · rintro ⟨rfl, hdep, hslash⟩
    rw [ofText, dropStart?_dep_eq_none_iff.2 hdep, Text.cutFirst?_eq_none_iff.2 hslash]

/-- A request splits at its first slash; it is weak when a question mark stands before that. -/
theorem ofText_eq_request_iff {weak : Bool} :
    ofText text = .request dependency feature weak ↔
      if weak then Splits text (dependency ++ "?") feature
      else Splits text dependency feature ∧ ∀ name, dependency ≠ name ++ "?" := by
  constructor
  · intro h
    unfold ofText at h
    split at h
    · cases h
    · next hdep =>
      split at h
      · cases h
      · next before after hcut =>
        obtain ⟨heq, hfirst⟩ := cutFirst?_slash_eq_some_iff.1 hcut
        have hsplits : Splits text before after := ⟨dropStart?_dep_eq_none_iff.1 hdep, heq, hfirst⟩
        split at h
        · next name hmark =>
          cases h
          obtain rfl := dropLast?_mark_eq_some_iff.1 hmark
          exact hsplits
        · next hmark =>
          cases h
          refine ⟨hsplits, fun name hname => ?_⟩
          rw [dropLast?_mark_eq_some_iff.2 hname] at hmark
          cases hmark
  · intro h
    cases weak with
    | true =>
      obtain ⟨hdep, heq, hfirst⟩ : Splits text (dependency ++ "?") feature := h
      rw [ofText, dropStart?_dep_eq_none_iff.2 hdep]
      simp only [cutFirst?_slash_eq_some_iff.2 ⟨heq, hfirst⟩, dropLast?_mark_eq_some_iff.2 rfl]
    | false =>
      obtain ⟨⟨hdep, heq, hfirst⟩, hmark⟩ : Splits text dependency feature ∧ _ := h
      have hnone : Text.dropLast? '?' dependency = none :=
        Option.eq_none_iff_forall_ne_some.2 fun name hname =>
          hmark name (dropLast?_mark_eq_some_iff.1 hname)
      rw [ofText, dropStart?_dep_eq_none_iff.2 hdep]
      simp only [cutFirst?_slash_eq_some_iff.2 ⟨heq, hfirst⟩, hnone]

end FeatureEntry

/-! ## Selections -/

namespace FeatureSelection

/-- No dependency is listed without a feature that is asked of it. -/
def IsTidy (s : FeatureSelection) : Prop :=
  ∀ dependency, s.requests.get? dependency ≠ none ↔ ∃ feature, feature ∈ s.requestsOn dependency

theorem isTidy_empty : IsTidy {} := by
  intro dependency
  simp [requestsOn, SortedMap.getD]

theorem IsTidy.record {s : FeatureSelection} (h : s.IsTidy) (entry : FeatureEntry) :
    (s.record entry).IsTidy := by
  intro dependency
  cases entry with
  | feature | dependency => exact h dependency
  | request d f w =>
    simp only [FeatureSelection.record, requestsOn, SortedMap.getD, SortedMap.get?_insert]
    split
    · simp
    · exact h dependency

theorem IsTidy.foldl {l : List FeatureEntry} {s : FeatureSelection} (h : s.IsTidy) :
    (l.foldl FeatureSelection.record s).IsTidy := by
  induction l generalizing s with
  | nil => exact h
  | cons entry rest ih => exact ih (h.record entry)

/-- What is listed for a dependency is told by the features asked of it. -/
theorem IsTidy.get?_eq {s : FeatureSelection} (h : s.IsTidy) (dependency : String) :
    s.requests.get? dependency =
      if s.requestsOn dependency = ∅ then none else some (s.requestsOn dependency) := by
  have hlisted := h dependency
  unfold requestsOn SortedMap.getD at hlisted ⊢
  cases hget : s.requests.get? dependency with
  | none => simp
  | some features =>
    obtain ⟨feature, hfeature⟩ := hlisted.1 (by simp [hget])
    have hne : features ≠ ∅ := by
      rintro rfl
      simp [hget] at hfeature
    simp [hne]

/-- Selections that list nothing in vain are equal if they hold the same. -/
theorem IsTidy.ext {s t : FeatureSelection} (hs : s.IsTidy) (ht : t.IsTidy)
    (henabled : ∀ name, name ∈ s.enabled ↔ name ∈ t.enabled)
    (hactivated : ∀ name, name ∈ s.activated ↔ name ∈ t.activated)
    (hrequests : ∀ d f, f ∈ s.requestsOn d ↔ f ∈ t.requestsOn d) : s = t := by
  have hget : ∀ d, s.requests.get? d = t.requests.get? d := by
    intro d
    rw [hs.get?_eq, ht.get?_eq, SortedSet.ext_mem (hrequests d)]
  obtain ⟨enabled, activated, requests⟩ := s
  obtain ⟨enabled', activated', requests'⟩ := t
  obtain rfl : enabled = enabled' := SortedSet.ext_mem henabled
  obtain rfl : activated = activated' := SortedSet.ext_mem hactivated
  obtain rfl : requests = requests' := SortedMap.ext_get? hget
  rfl

/-- What a list of entries amounts to does not depend on their order. -/
theorem foldl_record_congr {l l' : List FeatureEntry} {s : FeatureSelection} (hs : s.IsTidy)
    (h : ∀ entry, entry ∈ l ↔ entry ∈ l') :
    l.foldl FeatureSelection.record s = l'.foldl FeatureSelection.record s := by
  refine hs.foldl.ext hs.foldl (fun name => ?_) (fun name => ?_) (fun d f => ?_)
  · simp only [mem_enabled_foldl, h]
  · simp only [mem_activated_foldl, h]
  · simp only [mem_requestsOn_foldl, h]

/-- One selection holds what two others hold together. -/
structure IsUnion (whole s t : FeatureSelection) : Prop where
  enabled : whole.enabled = s.enabled ∪ t.enabled
  activated : whole.activated = s.activated ∪ t.activated
  requests : ∀ dependency, whole.requests.get? dependency =
    (s.requests.get? dependency).merge (· ∪ ·) (t.requests.get? dependency)

end FeatureSelection

/-! ## Orders of following -/

/-- The entries that wait to be followed, and what was found by following others. -/
structure WorkList where
  pending : List String
  found : FeatureSelection

namespace FeatureMap

variable (map : FeatureMap)

/-- What an entry brings in: the list of a feature that was not found before. -/
def broughtBy (found : FeatureSelection) : FeatureEntry → List String
  | .feature name => if name ∈ found.enabled then [] else map.getD name []
  | _ => []

/-- One turn of a work list takes any entry that is pending, and puts what that brings in anywhere
among the others. -/
inductive Turn : WorkList → WorkList → Prop
  | take {pending rest next : List String} {text : String} {found : FeatureSelection}
      (htake : pending.Perm (text :: rest))
      (hnext : next.Perm (map.broughtBy found (.ofText text) ++ rest)) :
      Turn ⟨pending, found⟩ ⟨next, found.record (.ofText text)⟩

/-- The lists that no feature found so far has brought in. -/
def unread (found : FeatureSelection) : FeatureMap := map.filter fun e => e.1 ∉ found.enabled

variable {map} {found : FeatureSelection} {name : String}

theorem get?_unread (other : String) :
    (map.unread found).get? other = if other ∈ found.enabled then none else map.get? other := by
  rw [unread, SortedMap.get?_filter]
  by_cases h : other ∈ found.enabled <;> cases map.get? other <;> simp [h]

@[simp] theorem unread_empty (map : FeatureMap) : map.unread {} = map :=
  SortedMap.ext_get? fun other => by simp [get?_unread]

theorem getD_unread : (map.unread found).getD name [] = map.broughtBy found (.feature name) := by
  rw [SortedMap.getD, get?_unread, broughtBy]
  split <;> rfl

theorem unread_record_feature :
    map.unread (found.record (.feature name)) = SortedMap.erase (map.unread found) name := by
  refine SortedMap.ext_get? fun other => ?_
  simp only [SortedMap.get?_erase, get?_unread, FeatureSelection.record, SortedSet.mem_insert]
  by_cases h : other = name <;> simp [h]

/-- What a work list comes to when entries are taken from its front. -/
def outcome (map : FeatureMap) (w : WorkList) : FeatureSelection :=
  ((map.unread w.found).reach w.pending).foldl .record w.found

/-- A turn at the front is one step of following. -/
theorem outcome_cons {text : String} {rest : List String} :
    map.outcome ⟨text :: rest, found⟩ =
      map.outcome ⟨map.broughtBy found (.ofText text) ++ rest, found.record (.ofText text)⟩ := by
  unfold outcome
  rw [reach]
  split
  · next name hname =>
    rw [hname, List.foldl_cons, unread_record_feature, getD_unread]
  · next entry hentry =>
    cases hread : FeatureEntry.ofText text with
    | feature name => exact absurd hread (hentry name)
    | dependency | request => rfl

theorem outcome_perm {pending pending' : List String} (h : pending.Perm pending')
    (hfound : found.IsTidy) : map.outcome ⟨pending, found⟩ = map.outcome ⟨pending', found⟩ := by
  refine FeatureSelection.foldl_record_congr hfound fun entry => ?_
  simp only [mem_reach_iff]
  constructor
  · rintro ⟨text, htext, hread⟩
    exact ⟨text, htext.mono (fun _ _ h => h) h.subset, hread⟩
  · rintro ⟨text, htext, hread⟩
    exact ⟨text, htext.mono (fun _ _ h => h) h.symm.subset, hread⟩

/-- No turn changes what a work list comes to. -/
theorem Turn.outcome_eq {w w' : WorkList} (h : map.Turn w w') (hfound : w.found.IsTidy) :
    w'.found.IsTidy ∧ map.outcome w' = map.outcome w := by
  obtain ⟨htake, hnext⟩ := h
  refine ⟨hfound.record _, ?_⟩
  rw [outcome_perm htake hfound, outcome_cons, outcome_perm hnext (hfound.record _)]

theorem outcome_eq_of_turns {w w' : WorkList} (h : ReflTransGen map.Turn w w')
    (hfound : w.found.IsTidy) : w'.found.IsTidy ∧ map.outcome w' = map.outcome w := by
  induction h with
  | refl => exact ⟨hfound, rfl⟩
  | tail _ hturn ih =>
    obtain ⟨htidy, heq⟩ := hturn.outcome_eq ih.1
    exact ⟨htidy, heq.trans ih.2⟩

/-- The turns that are left at most. -/
def turnsLeft (map : FeatureMap) (w : WorkList) : Nat :=
  (map.unread w.found).weight + w.pending.length

theorem Turn.turnsLeft_lt {w w' : WorkList} (h : map.Turn w w') :
    map.turnsLeft w' < map.turnsLeft w := by
  cases h with
  | @take pending rest next text found htake hnext =>
    simp only [turnsLeft, htake.length_eq, hnext.length_eq, List.length_append, List.length_cons]
    cases FeatureEntry.ofText text with
    | feature name =>
      have hweight := (map.unread found).getD_length_add_weight_erase_le name
      rw [getD_unread] at hweight
      rw [unread_record_feature]
      omega
    | dependency | request =>
      -- nothing is brought in, and no list is read
      show (map.unread found).weight + (0 + rest.length) < _
      omega

/-- However entries are taken, turns come to an end. -/
theorem wellFounded_turn (map : FeatureMap) : WellFounded fun w' w => map.Turn w w' :=
  Subrelation.wf Turn.turnsLeft_lt (measure map.turnsLeft).wf

theorem exists_turns (map : FeatureMap) (w : WorkList) :
    ∃ found, ReflTransGen map.Turn w ⟨[], found⟩ := by
  induction w using map.wellFounded_turn.induction with
  | _ w ih =>
    obtain ⟨pending, found⟩ := w
    cases pending with
    | nil => exact ⟨found, .refl⟩
    | cons text rest =>
      have hturn : map.Turn ⟨text :: rest, found⟩ _ := .take (.refl _) (.refl _)
      obtain ⟨found', hrest⟩ := ih _ hturn
      exact ⟨found', .head hturn hrest⟩

/-- In whichever order the requested entries are followed, it comes to what flattening gives. -/
theorem turns_iff_eq_flatten {requested : NameSet} {pending : List String}
    {found : FeatureSelection} (hpending : pending.Perm requested.toList) :
    ReflTransGen map.Turn ⟨pending, {}⟩ ⟨[], found⟩ ↔ found = map.flatten requested := by
  have hends : ∀ {found}, ReflTransGen map.Turn ⟨pending, {}⟩ ⟨[], found⟩ →
      found = map.flatten requested := by
    intro found h
    have heq := (outcome_eq_of_turns h FeatureSelection.isTidy_empty).2
    rw [outcome_perm hpending FeatureSelection.isTidy_empty] at heq
    simpa [outcome, reach, flatten] using heq
  refine ⟨hends, ?_⟩
  rintro rfl
  obtain ⟨found, h⟩ := map.exists_turns ⟨pending, {}⟩
  exact hends h ▸ h

/-! ## Reached texts -/

/-- The texts that are requested, or listed under a plain text that is reached. -/
inductive Reached (map : FeatureMap) (requested : NameSet) : String → Prop
  | requested {text : String} (h : text ∈ requested) : Reached map requested text
  | listed {name text : String} {texts : List String} (hname : Reached map requested name)
      (hplain : FeatureEntry.IsPlain name) (htexts : map.get? name = some texts)
      (h : text ∈ texts) : Reached map requested text

variable {requested requested' : NameSet} {text : String}

theorem reached_iff_reaches : map.Reached requested text ↔ map.Reaches requested.toList text := by
  constructor
  · intro h
    induction h with
    | requested h => exact .requested h
    | listed _ hplain htexts h ih =>
      refine .implied ih (FeatureEntry.ofText_eq_feature_iff.2 ⟨rfl, hplain⟩) ?_
      rwa [SortedMap.getD, htexts]
  · intro h
    induction h with
    | requested h => exact .requested h
    | @implied name text _ hfeature h ih =>
      rw [SortedMap.getD] at h
      cases htexts : map.get? name with
      | none => simp [htexts] at h
      | some texts =>
        rw [htexts] at h
        exact .listed ih (FeatureEntry.ofText_eq_feature_iff.1 hfeature).2 htexts h

theorem reached_union_iff :
    map.Reached (requested ∪ requested') text ↔
      map.Reached requested text ∨ map.Reached requested' text := by
  constructor
  · intro h
    induction h with
    | requested h => exact (SortedSet.mem_union.1 h).imp .requested .requested
    | listed _ hplain htexts h ih =>
      exact ih.imp (.listed · hplain htexts h) (.listed · hplain htexts h)
  · rintro (h | h)
    · induction h with
      | requested h => exact .requested (SortedSet.mem_union.2 (.inl h))
      | listed _ hplain htexts h ih => exact .listed ih hplain htexts h
    · induction h with
      | requested h => exact .requested (SortedSet.mem_union.2 (.inr h))
      | listed _ hplain htexts h ih => exact .listed ih hplain htexts h

/-! ## Flattening -/

/-- A text that is reached asks for a feature of a dependency, weakly or not. -/
def Wants (map : FeatureMap) (requested : NameSet) (dependency feature : String) : Prop :=
  ∃ text, map.Reached requested text ∧
    (FeatureEntry.Splits text dependency feature ∧ (∀ name, dependency ≠ name ++ "?") ∨
      FeatureEntry.Splits text (dependency ++ "?") feature)

/-- The selection holds exactly what is reached. -/
structure Amounts (map : FeatureMap) (requested : NameSet) (s : FeatureSelection) : Prop where
  enabled : ∀ name, name ∈ s.enabled ↔ map.Reached requested name ∧ FeatureEntry.IsPlain name
  activated : ∀ name, name ∈ s.activated ↔
    map.Reached requested ("dep:" ++ name) ∨
      ∃ text feature, map.Reached requested text ∧ FeatureEntry.Splits text name feature ∧
        ∀ rest, name ≠ rest ++ "?"
  requests : ∀ dependency features, s.requests.get? dependency = some features →
    ∀ feature, feature ∈ features ↔ map.Wants requested dependency feature
  listed_iff : ∀ dependency, s.requests.get? dependency ≠ none ↔
    ∃ feature, map.Wants requested dependency feature

theorem mem_requestsOn_flatten_iff_wants {dependency feature : String} :
    feature ∈ (map.flatten requested).requestsOn dependency ↔
      map.Wants requested dependency feature := by
  simp only [mem_requestsOn_flatten_iff, ← reached_iff_reaches, Wants,
    FeatureEntry.ofText_eq_request_iff]
  simp [Bool.exists_bool, or_comm, and_or_left, exists_or]

theorem isTidy_flatten : (map.flatten requested).IsTidy := FeatureSelection.isTidy_empty.foldl

theorem amounts_flatten : map.Amounts requested (map.flatten requested) where
  enabled name := by
    rw [mem_enabled_flatten_iff, ← reached_iff_reaches, FeatureEntry.ofText_eq_feature_iff]
    simp
  activated name := by
    simp only [mem_activated_flatten_iff, ← reached_iff_reaches,
      FeatureEntry.ofText_eq_dependency_iff, FeatureEntry.ofText_eq_request_iff]
    constructor
    · rintro ⟨text, htext, rfl | ⟨feature, hsplits, hmark⟩⟩
      · exact .inl htext
      · exact .inr ⟨text, feature, htext, hsplits, hmark⟩
    · rintro (htext | ⟨text, feature, htext, hsplits, hmark⟩)
      · exact ⟨_, htext, .inl rfl⟩
      · exact ⟨text, htext, .inr ⟨feature, hsplits, hmark⟩⟩
  requests dependency features hget feature := by
    rw [← mem_requestsOn_flatten_iff_wants, FeatureSelection.requestsOn, SortedMap.getD, hget]
    rfl
  listed_iff dependency := by
    rw [isTidy_flatten dependency]
    simp only [mem_requestsOn_flatten_iff_wants]

/-- A selection of more requests holds what those of fewer hold together. -/
theorem isUnion_flatten : (map.flatten (requested ∪ requested')).IsUnion (map.flatten requested)
    (map.flatten requested') where
  enabled := by
    refine SortedSet.ext_mem fun name => ?_
    simp only [SortedSet.mem_union, amounts_flatten.enabled, reached_union_iff, or_and_right]
  activated := by
    refine SortedSet.ext_mem fun name => ?_
    simp only [SortedSet.mem_union, amounts_flatten.activated, reached_union_iff, or_and_right,
      exists_or]
    exact or_or_or_comm
  requests dependency := by
    have hunion : (map.flatten (requested ∪ requested')).requestsOn dependency =
        (map.flatten requested).requestsOn dependency ∪
          (map.flatten requested').requestsOn dependency := by
      refine SortedSet.ext_mem fun feature => ?_
      simp only [SortedSet.mem_union, mem_requestsOn_flatten_iff_wants, Wants, reached_union_iff,
        or_and_right, exists_or]
    simp only [isTidy_flatten.get?_eq, hunion, SortedSet.union_eq_empty_iff]
    split <;> split <;> split <;> simp_all

/-- Flattening gives exactly what is reached. In whichever order a work list is gone through, it ends,
and with what flattening gives. What is requested together is what is requested apart, taken
together. -/
theorem flatten_exact (map : FeatureMap) (requested : NameSet) :
    map.Amounts requested (map.flatten requested) ∧
      WellFounded (fun later earlier => map.Turn earlier later) ∧
      (∀ pending found, pending.Perm requested.toList →
        (ReflTransGen map.Turn ⟨pending, {}⟩ ⟨[], found⟩ ↔ found = map.flatten requested)) ∧
      ∀ requested', (map.flatten (requested ∪ requested')).IsUnion (map.flatten requested)
        (map.flatten requested') :=
  ⟨amounts_flatten, map.wellFounded_turn, fun _ _ => turns_iff_eq_flatten, fun _ => isUnion_flatten⟩

end FeatureMap

end BuildRules
