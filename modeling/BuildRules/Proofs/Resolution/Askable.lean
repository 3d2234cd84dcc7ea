import BuildRules.Proofs.Resolution.Depth
import BuildRules.Proofs.Resolution.Rounds

/-!
# What can be asked for

A request is what follows a slash in a feature entry of some rule, however often it has been read as
an entry again, so there are only so many requests. Main statements: `Asked.mem_requestable`, and
that the graph of units is the least one that is closed (`exists_least_closed`).
-/

namespace BuildRules

/-! ## What follows slashes -/

/-- What follows each slash of a text. -/
def afterSlashes : List Char → List String
  | [] => []
  | c :: rest => if c = '/' then String.ofList rest :: afterSlashes rest else afterSlashes rest

theorem length_afterSlashes (l : List Char) : (afterSlashes l).length = l.count '/' := by
  induction l with
  | nil => rfl
  | cons c rest ih =>
    rw [afterSlashes]
    split
    · next h => simp [h, ih]
    · next h => simp [h, ih]

theorem mem_afterSlashes_iff {f : String} {l : List Char} :
    f ∈ afterSlashes l ↔ ∃ before, l = before ++ '/' :: f.toList := by
  induction l with
  | nil => simp [afterSlashes]
  | cons c rest ih =>
    rw [afterSlashes]
    constructor
    · intro h
      split at h
      · next hc =>
        rcases List.mem_cons.1 h with rfl | h
        · exact ⟨[], by simp [hc]⟩
        · obtain ⟨before, rfl⟩ := ih.1 h
          exact ⟨c :: before, rfl⟩
      · obtain ⟨before, rfl⟩ := ih.1 h
        exact ⟨c :: before, rfl⟩
    · intro hsplit
      obtain ⟨before, hl⟩ := hsplit
      cases before with
      | nil =>
        obtain ⟨rfl, rfl⟩ := List.cons.inj hl
        simp
      | cons c' before =>
        obtain ⟨rfl, rfl⟩ := List.cons.inj hl
        have hmem := ih.2 ⟨before, rfl⟩
        split
        · exact List.mem_cons_of_mem _ hmem
        · exact hmem

/-- What follows a slash in what follows a slash follows a slash. -/
theorem mem_afterSlashes_trans {f text : String} {l : List Char} (hf : f ∈ afterSlashes text.toList)
    (htext : text ∈ afterSlashes l) : f ∈ afterSlashes l := by
  obtain ⟨before, hbefore⟩ := mem_afterSlashes_iff.1 hf
  obtain ⟨before', rfl⟩ := mem_afterSlashes_iff.1 htext
  exact mem_afterSlashes_iff.2 ⟨before' ++ '/' :: before, by simp [hbefore]⟩

theorem FeatureEntry.mem_afterSlashes {text dependency feature : String} {weak : Bool}
    (h : ofText text = request dependency feature weak) : feature ∈ afterSlashes text.toList := by
  unfold ofText at h
  split at h
  · cases h
  · split at h
    · cases h
    · next name wanted hcut =>
      obtain ⟨⟨before, rest⟩, hchars, hparts⟩ := Option.map_eq_some_iff.1 hcut
      obtain ⟨-, rfl⟩ := Prod.mk.inj hparts
      obtain ⟨hsplit, -⟩ := Text.cutCharsFirst?_eq_some_iff.1 hchars
      have hmem : String.ofList rest ∈ afterSlashes text.toList :=
        mem_afterSlashes_iff.2 ⟨before, by simpa using hsplit⟩
      split at h <;> cases h <;> exact hmem

/-- The feature entries that a target declares. -/
def Target.featureEntries (t : Target) : List String :=
  t.features.toList ++ t.featureMap.values.flatten

theorem FeatureMap.Reaches.mem_or {map : FeatureMap} {requested : List String} {text : String}
    (h : map.Reaches requested text) : text ∈ requested ∨ text ∈ map.values.flatten := by
  cases h with
  | requested h => exact .inl h
  | @implied name _ _ _ h =>
    refine .inr ?_
    unfold SortedMap.getD at h
    cases hget : map.get? name with
    | none => simp [hget] at h
    | some implied =>
      rw [hget] at h
      refine List.mem_flatten.2 ⟨implied, ?_, h⟩
      exact List.mem_map.2 ⟨(name, implied), SortedMap.mem_toList_iff.2 hget, rfl⟩

namespace UnitGraph

/-! ## Requests -/

variable (g : UnitGraph)

/-- What follows a slash in a feature entry of the root or of a rule of the table. -/
def askable : List String :=
  (g.root :: g.table.rules.values).flatMap fun rule =>
    rule.common.featureEntries.flatMap fun entry => afterSlashes entry.toList

/-- The requests that can be made. -/
def requestable : Finset (UnitKey × String) := g.unitsNamed g.table.names ×ˢ g.askable.toFinset

variable {g}

theorem rule?_mem {u : UnitKey} {rule : Rule} (h : g.rule? u = some rule) :
    rule ∈ g.root :: g.table.rules.values := by
  unfold rule? at h
  split at h
  · exact List.mem_cons.2 (.inl (Option.some.inj h).symm)
  · refine List.mem_cons_of_mem _ (List.mem_map.2 ⟨(u.name, rule), ?_, rfl⟩)
    exact SortedMap.mem_toList_iff.2 h

theorem mem_askable {u : UnitKey} {rule : Rule} {entry f : String} (hrule : g.rule? u = some rule)
    (hentry : entry ∈ rule.common.featureEntries) (hf : f ∈ afterSlashes entry.toList) :
    f ∈ g.askable :=
  List.mem_flatMap.2 ⟨rule, rule?_mem hrule, List.mem_flatMap.2 ⟨entry, hentry, hf⟩⟩

/-- A unit asks only for what can be asked for, if no more than that is asked of it. -/
theorem Link.mem_requestable {u v : UnitKey} {asked request : NameSet} (hu : u ∈ g.units)
    (hasked : ∀ f ∈ asked, f ∈ g.askable) (h : g.Link u asked v request) :
    v ∈ g.unitsNamed g.table.names ∧ ∀ f ∈ request, f ∈ g.askable := by
  cases h with
  | @intro rule next labels edge hrule hselect hneeds hnext =>
    refine ⟨hneeds.place_mem_unitsNamed hu hnext, fun f hf => ?_⟩
    obtain ⟨text, weak, hreaches, htext⟩ := FeatureMap.mem_requestsOn_flatten_iff.1 hf
    have hafter := FeatureEntry.mem_afterSlashes htext
    rcases hreaches.mem_or with hmem | hmem
    · rcases SortedSet.mem_union.1 hmem with hmem | hmem
      · exact mem_askable hrule (List.mem_append_left _ hmem) hafter
      · -- the entry was itself asked of the unit
        obtain ⟨rule', hrule', hentries⟩ := List.mem_flatMap.1 (hasked text hmem)
        obtain ⟨entry, hentry, htail⟩ := List.mem_flatMap.1 hentries
        exact List.mem_flatMap.2 ⟨rule', hrule', List.mem_flatMap.2
          ⟨entry, hentry, mem_afterSlashes_trans hafter htail⟩⟩
    · exact mem_askable hrule (List.mem_append_right _ hmem) hafter

theorem Asked.mem_requestable {u : UnitKey} {asked : NameSet} (h : g.Asked u asked) :
    u ∈ g.units ∧ ∀ f ∈ asked, (u, f) ∈ g.requestable := by
  induction h with
  | root => exact ⟨rootKey_mem_units, fun f hf => absurd hf (SortedSet.not_mem_empty f)⟩
  | @link u v asked request _ hlink ih =>
    have haskable : ∀ f ∈ asked, f ∈ g.askable := fun f hf =>
      List.mem_toFinset.1 (Finset.mem_product.1 (ih.2 f hf)).2
    obtain ⟨hv, hrequest⟩ := hlink.mem_requestable ih.1 haskable
    exact ⟨mem_units_of_mem_names hv,
      fun f hf => Finset.mem_product.2 ⟨hv, List.mem_toFinset.2 (hrequest f hf)⟩⟩
  | union _ _ ih ih' =>
    exact ⟨ih.1, fun f hf => (SortedSet.mem_union.1 hf).elim (ih.2 f) (ih'.2 f)⟩

theorem Backs.mem_requestable {requested : Requests} (h : g.Backs requested) :
    ∀ u, ∀ f ∈ requested.asked u, (u, f) ∈ g.requestable := by
  intro u f hf
  obtain ⟨asked, hasked, hmem⟩ := h u f hf
  exact hasked.mem_requestable.2 f hmem

variable (g) in
/-- The requests that are made, out of those that can be. -/
def made (requested : Requests) : Finset (UnitKey × String) :=
  g.requestable.filter fun p => p.2 ∈ requested.asked p.1

theorem mem_made_iff {requested : Requests} (h : g.Backs requested) {u : UnitKey} {f : String} :
    (u, f) ∈ g.made requested ↔ f ∈ requested.asked u := by
  refine Finset.mem_filter.trans ⟨fun hmem => hmem.2, fun hf => ⟨?_, hf⟩⟩
  exact h.mem_requestable u f hf

theorem card_made_le (g : UnitGraph) (requested : Requests) :
    (g.made requested).card ≤ g.requestable.card :=
  Finset.card_filter_le _ _

/-! ## The least graph -/

/-- The graph is the least that is closed when all features are asked of a unit that any unit asks
of it, and its edges are the links of its units. -/
theorem exists_least_closed (g : UnitGraph) : ∃ asked,
    g.Closed g.Has asked ∧
    (∀ u v, g.Leads u v ↔ g.Has u ∧ ∃ request, g.Link u (asked u) v request) ∧
    ∀ has' asked', g.Closed has' asked' → ∀ u, g.Has u → has' u ∧ asked u ⊆ asked' u := by
  classical
  let asked (u : UnitKey) : NameSet :=
    .ofList (g.askable.filter fun f => ∃ features, g.Asked u features ∧ f ∈ features)
  have hmem : ∀ u f, f ∈ asked u ↔ ∃ features, g.Asked u features ∧ f ∈ features := by
    intro u f
    refine SortedSet.mem_ofList.trans (List.mem_filter.trans ?_)
    rw [decide_eq_true_iff]
    refine ⟨fun h => h.2, fun h => ⟨?_, h⟩⟩
    obtain ⟨features, hfeatures, hf⟩ := h
    exact List.mem_toFinset.1 (Finset.mem_product.1 (hfeatures.mem_requestable.2 f hf)).2
  -- all that is asked one by one is also asked together
  have hall : ∀ u, g.Has u → g.Asked u (asked u) := by
    intro u hu
    obtain ⟨features, hfeatures, hsubset⟩ := hu.asked_together fun f hf => (hmem u f).1 hf
    have heq : asked u = features := by
      refine SortedSet.Subset.antisymm hsubset fun f hf => ?_
      exact (hmem u f).2 ⟨features, hfeatures, hf⟩
    rw [heq]
    exact hfeatures
  refine ⟨asked, ⟨has_rootKey, ?_⟩, ?_, ?_⟩
  · intro u v request hu hlink
    have hv := (hall u hu).link hlink
    exact ⟨⟨request, hv⟩, fun f hf => (hmem v f).2 ⟨request, hv, hf⟩⟩
  · intro u v
    constructor
    · intro hleads
      obtain ⟨features, request, hfeatures, hlink⟩ := hleads
      obtain ⟨request', -, hlink'⟩ := hlink.mono fun f hf => (hmem u f).2 ⟨features, hfeatures, hf⟩
      exact ⟨⟨features, hfeatures⟩, request', hlink'⟩
    · intro hleads
      obtain ⟨hu, request, hlink⟩ := hleads
      exact ⟨asked u, request, hall u hu, hlink⟩
  · intro has' asked' hclosed u hu
    exact (hall u hu).of_closed hclosed

end UnitGraph

end BuildRules
