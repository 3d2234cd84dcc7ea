import BuildRules.Proofs.Resolution.Askable

/-!
# Resolving ends

Whatever the table holds, resolving stops, and the bounds that it is run with are never reached:
there are only so many requests to make, and each walk but the last makes a new one. Main statement:
`resolution_terminates`.
-/

namespace BuildRules

open Relation

namespace Resolver

/-! ## The bounds -/

private theorem length_flatMap {α β : Type} {f : α → List β} {size : α → Nat}
    (h : ∀ a, (f a).length = size a) (l : List α) :
    (l.flatMap f).length = l.foldr (fun a n => size a + n) 0 := by
  induction l with
  | nil => rfl
  | cons a rest ih => rw [List.flatMap_cons, List.length_append, h, ih, List.foldr_cons]

theorem length_askable (r : Resolver) (rule : Rule) (platform : Platform) :
    (r.graph rule platform).askable.length =
      (rule :: r.table.rules.values).foldr (fun rule n => slashes rule.common + n) 0 := by
  refine length_flatMap (fun rule => ?_) _
  exact length_flatMap (fun entry : String => length_afterSlashes entry.toList) _

variable (r : Resolver) (rule : Rule) (platform : Platform)

theorem card_requestable_lt :
    (r.graph rule platform).requestable.card < r.roundBound rule := by
  have hunits := (r.graph rule platform).card_unitsNamed_le r.table.names
  rw [RuleTable.length_names] at hunits
  have hasked := List.toFinset_card_le (r.graph rule platform).askable
  rw [length_askable] at hasked
  unfold UnitGraph.requestable roundBound
  rw [Finset.card_product]
  exact Nat.lt_succ_of_le (Nat.mul_le_mul hunits hasked)

theorem card_units_lt : (r.graph rule platform).units.card < r.depthBound :=
  Nat.lt_succ_of_le (r.graph rule platform).card_units_le

/-! ## One walk -/

theorem walk_not_exhausted (requested : Requests) {depth : Nat}
    (hdepth : (r.graph rule platform).units.card < depth) :
    Walk.visit (r.setting platform requested) depth [] rule platform {} ≠ .error .exhausted := by
  have hpath : Walk.isDirect (r.graph rule platform) [] := Walk.isDirect_iff.2 (by simp)
  rw [r.setting_eq rule]
  exact (Walk.visit_not_exhausted hpath UnitGraph.rootKey_mem_units hdepth).ne_error (· rfl)

/-- Whatever the depth, as long as it suffices, a walk is the one that watches its path. -/
theorem walk_eq_visitOn (requested : Requests) {depth : Nat}
    (hdepth : (r.graph rule platform).units.card < depth) :
    Walk.visit (r.setting platform requested) depth [] rule platform {} =
      Walk.visitOn (r.setting platform requested) (Walk.isDirect (r.graph rule platform))
        ((r.graph rule platform).units.card + 1) [] rule platform {} := by
  have hpath : Walk.isDirect (r.graph rule platform) [] := Walk.isDirect_iff.2 (by simp)
  rw [r.setting_eq rule]
  exact (Walk.visitOn_eq_visit hpath UnitGraph.rootKey_mem_units (Nat.lt_succ_self _) hdepth).symm

/-! ## Round after round -/

/-- A walk with the given requests asks for more, so another walk is made with all of them. -/
def NextRound (requested next : Requests) : Prop :=
  ∃ outcome walk,
    Walk.visit (r.setting platform requested) r.depthBound [] rule platform {} =
      .ok (outcome, walk) ∧
    next = requested.merge walk.demanded ∧ next ≠ requested

section

variable {r rule platform} {requested next : Requests}

theorem NextRound.backs (h : r.NextRound rule platform requested next)
    (hbacked : (r.graph rule platform).Backs requested) : (r.graph rule platform).Backs next := by
  obtain ⟨outcome, walk, hwalk, rfl, -⟩ := h
  have hvisited := r.visit_root_meets rule platform requested r.depthBound
  rw [hwalk] at hvisited
  exact hbacked.merge hvisited.sound

/-- Nothing that has been asked for is forgotten. -/
theorem NextRound.asked_subset (h : r.NextRound rule platform requested next) (u : UnitKey) :
    requested.asked u ⊆ next.asked u := by
  obtain ⟨outcome, walk, -, rfl, -⟩ := h
  intro f hf
  exact Requests.mem_asked_merge.2 (.inl hf)

/-- Something is asked for that was not asked for before. -/
theorem NextRound.exists_new (h : r.NextRound rule platform requested next) :
    ∃ u, ∃ f ∈ next.asked u, f ∉ requested.asked u := by
  obtain ⟨outcome, walk, -, rfl, hne⟩ := h
  by_contra hnone
  push Not at hnone
  refine hne (Requests.merge_eq_self_iff.2 fun u f hf => ?_)
  exact hnone u f (Requests.mem_asked_merge.2 (.inr hf))

theorem NextRound.card_made_lt (h : r.NextRound rule platform requested next)
    (hbacked : (r.graph rule platform).Backs requested) :
    ((r.graph rule platform).made requested).card < ((r.graph rule platform).made next).card := by
  have hnext := h.backs hbacked
  obtain ⟨u, f, hf, hnew⟩ := h.exists_new
  refine Finset.card_lt_card ⟨?_, fun hsubset => hnew ?_⟩
  · rintro ⟨v, f⟩ hmem
    have hold := (UnitGraph.mem_made_iff hbacked).1 hmem
    exact (UnitGraph.mem_made_iff hnext).2 (h.asked_subset v f hold)
  · exact (UnitGraph.mem_made_iff hbacked).1 (hsubset ((UnitGraph.mem_made_iff hnext).2 hf))

theorem backs_of_rounds
    (h : ReflTransGen (r.NextRound rule platform) ∅ requested) :
    (r.graph rule platform).Backs requested := by
  induction h with
  | refl => exact UnitGraph.backs_empty _
  | tail _ hnext ih => exact hnext.backs ih

variable (r rule platform) in
/-- A walk either ends the settling, whatever the rounds that are left, or is followed by another. -/
theorem settle_succ (requested : Requests) :
    (∃ result, result ≠ .error .exhausted ∧
      ∀ rounds, r.settle rule platform (rounds + 1) requested = result) ∨
    ∃ next, r.NextRound rule platform requested next ∧
      ∀ rounds, r.settle rule platform (rounds + 1) requested = r.settle rule platform rounds next := by
  have hnot := r.walk_not_exhausted rule platform requested (r.card_units_lt rule platform)
  cases hwalk : Walk.visit (r.setting platform requested) r.depthBound [] rule platform {} with
  | error stop =>
    refine .inl ⟨.error stop, ?_, fun rounds => ?_⟩
    · rintro ⟨⟩
      exact hnot hwalk
    · rw [settle, hwalk]
      rfl
  | ok result =>
    obtain ⟨outcome, walk⟩ := result
    by_cases hsame : requested.merge walk.demanded = requested
    · refine .inl ⟨.ok (walk.resolution rule outcome), by simp, ?_⟩
      intro rounds
      rw [settle, hwalk]
      exact if_pos hsame
    · refine .inr ⟨requested.merge walk.demanded, ⟨outcome, walk, hwalk, rfl, hsame⟩, ?_⟩
      intro rounds
      rw [settle, hwalk]
      exact if_neg hsame

/-- As many rounds as there are requests that have not been made suffice, and one more for the walk
that makes none. -/
theorem settle_suffices (rounds : Nat) (hbacked : (r.graph rule platform).Backs requested)
    (hrounds : (r.graph rule platform).requestable.card <
      rounds + ((r.graph rule platform).made requested).card) :
    r.settle rule platform rounds requested ≠ .error .exhausted ∧
      ∀ more, r.settle rule platform (rounds + more) requested =
        r.settle rule platform rounds requested := by
  induction rounds generalizing requested with
  | zero =>
    have hmade := UnitGraph.card_made_le (r.graph rule platform) requested
    omega
  | succ rounds ih =>
    simp only [Nat.succ_add]
    rcases r.settle_succ rule platform requested with ⟨result, hresult, hends⟩ | ⟨next, hnext, hgoes⟩
    · simp only [hends]
      exact ⟨hresult, fun _ => trivial⟩
    · -- there is one round less, and at least one request less that can still be made
      have hmade := hnext.card_made_lt hbacked
      simp only [hgoes]
      apply ih (hnext.backs hbacked)
      omega

variable (r rule platform) in
/-- The bound on rounds suffices. -/
theorem settle_roundBound (more : Nat) :
    r.settle rule platform (r.roundBound rule + more) ∅ =
      Walk.refuse (r.resolveRule rule platform) := by
  have hrequestable := r.card_requestable_lt rule platform
  obtain ⟨hnot, hmore⟩ := settle_suffices (r.roundBound rule)
    (UnitGraph.backs_empty (r.graph rule platform)) (by omega)
  rw [hmore, resolveRule]
  split
  · next h => rw [h, Walk.refuse]
  · next h => rw [h, Walk.refuse]
  · next h => exact absurd h hnot

variable (r rule platform) in
/-- What is resolved is what the last walk found, and what is refused is what a walk found wrong
with requests that the graph makes. -/
theorem resolveRule_meets :
    Meets (r.resolveRule rule platform)
      (fun resolution => ∃ requested outcome walk,
        LastWalk (r.graph rule platform) r.settings.extraFlags requested outcome walk ∧
          resolution = walk.resolution rule outcome)
      (fun e => ∃ requested, (r.graph rule platform).Backs requested ∧
        (r.graph rule platform).Refused requested e) := by
  have hsettle := r.settle_meets rule platform (r.roundBound rule) (UnitGraph.backs_empty _)
  have hbound := r.settle_roundBound rule platform 0
  rw [Nat.add_zero] at hbound
  rw [hbound] at hsettle
  cases hresult : r.resolveRule rule platform with
  | ok resolution =>
    rw [hresult] at hsettle
    exact hsettle
  | error e =>
    rw [hresult] at hsettle
    exact hsettle e rfl

theorem exists_lastWalk {resolution : Resolution}
    (h : r.resolveRule rule platform = .ok resolution) :
    ∃ requested outcome walk,
      LastWalk (r.graph rule platform) r.settings.extraFlags requested outcome walk ∧
        resolution = walk.resolution rule outcome := by
  have hmeets := r.resolveRule_meets rule platform
  rwa [h] at hmeets

theorem exists_refused {e : RuleError} (h : r.resolveRule rule platform = .error e) :
    ∃ requested, (r.graph rule platform).Backs requested ∧
      (r.graph rule platform).Refused requested e := by
  have hmeets := r.resolveRule_meets rule platform
  rwa [h] at hmeets

end

/-- Resolving stops. The rounds that are granted suffice, and more of them change nothing. A round
that is not the last asks for something new, out of finitely much that can be asked for. And a walk,
which has depth enough in every round, never has a unit on its path twice. -/
theorem resolution_terminates (r : Resolver) (rule : Rule) (platform : Platform) :
    (r.settle rule platform (r.roundBound rule) ∅ ≠ .error .exhausted ∧
      ∀ more, r.settle rule platform (r.roundBound rule + more) ∅ =
        Walk.refuse (r.resolveRule rule platform)) ∧
    (r.graph rule platform).requestable.card < r.roundBound rule ∧
    (r.graph rule platform).units.card < r.depthBound ∧
    ∀ requested, ReflTransGen (r.NextRound rule platform) ∅ requested →
      (∀ u, ∀ f ∈ requested.asked u, (u, f) ∈ (r.graph rule platform).requestable) ∧
      (∀ next, r.NextRound rule platform requested next →
        (∀ u, requested.asked u ⊆ next.asked u) ∧
          ∃ u, ∃ f ∈ next.asked u, f ∉ requested.asked u) ∧
      ∀ depth, (r.graph rule platform).units.card < depth →
        Walk.visit (r.setting platform requested) depth [] rule platform {} ≠ .error .exhausted ∧
        Walk.visit (r.setting platform requested) depth [] rule platform {} =
          Walk.visitOn (r.setting platform requested) (Walk.isDirect (r.graph rule platform))
            ((r.graph rule platform).units.card + 1) [] rule platform {} := by
  have hrequestable := r.card_requestable_lt rule platform
  have hunits := r.card_units_lt rule platform
  refine ⟨⟨?_, r.settle_roundBound rule platform⟩, hrequestable, hunits, ?_⟩
  · refine (settle_suffices _ (UnitGraph.backs_empty _) ?_).1
    omega
  · intro requested hrounds
    refine ⟨(backs_of_rounds hrounds).mem_requestable, ?_, ?_⟩
    · intro next hnext
      exact ⟨hnext.asked_subset, hnext.exists_new⟩
    · intro depth hdepth
      exact ⟨r.walk_not_exhausted rule platform requested hdepth,
        r.walk_eq_visitOn rule platform requested hdepth⟩

/-- Two walks are not enough for every table, but the bound is. -/
theorem relay_terminates :
    relay.settle relayed ⟨"linux"⟩ 2 ∅ = .error .exhausted ∧
      relay.settle relayed ⟨"linux"⟩ (relay.roundBound relayed) ∅ ≠ .error .exhausted :=
  ⟨by decide +kernel, (resolution_terminates relay relayed ⟨"linux"⟩).1.1⟩

end Resolver

end BuildRules
