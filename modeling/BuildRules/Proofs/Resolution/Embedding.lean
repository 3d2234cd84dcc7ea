import BuildRules.Proofs.Resolution.Verdict

/-!
# Graphs within graphs

A graph of units lies within another one if its root is a unit there and no rule declares more
features than there. What is closed in the larger graph is closed in the smaller one, so all that the
smaller graph has and asks is had and asked in the larger one. Main statements:
`LastWalk.not_faulty_of_embeds`, `LastWalk.not_barred_of_embeds` and `IsRead.exists_within_of_embeds`.
-/

namespace BuildRules

open Relation

/-! ## Rules with more features -/

/-- The rule with other declared features. -/
def Rule.withFeatures (features : NameSet) : Rule → Rule
  | target t => target { t with features }
  | script s => script { s with target := { s.target with features } }

/-- The other rule differs at most in more declared features. -/
structure Rule.GrowsTo (rule rule' : Rule) : Prop where
  features : rule.common.features ⊆ rule'.common.features
  eq : rule' = rule.withFeatures rule'.common.features

instance (rule rule' : Rule) : Decidable (rule.GrowsTo rule') :=
  decidable_of_iff (rule.common.features ⊆ rule'.common.features ∧
      rule' = rule.withFeatures rule'.common.features)
    ⟨fun h => ⟨h.1, h.2⟩, fun h => ⟨h.features, h.eq⟩⟩

/-- The other table has the same names, and its rules differ at most in more declared features. -/
structure RuleTable.GrowsTo (table table' : RuleTable) : Prop where
  names_eq : table'.names = table.names
  rules : ∀ name ∈ table.names, ∀ rule ∈ table.get? name, ∀ rule' ∈ table'.get? name,
    rule.GrowsTo rule'

section

variable {rule rule' : Rule} {table table' : RuleTable} {name : String}

theorem Rule.common_withFeatures (features : NameSet) (rule : Rule) :
    (rule.withFeatures features).common = { rule.common with features } := by
  cases rule <;> rfl

theorem Rule.isScript_withFeatures (features : NameSet) (rule : Rule) :
    (rule.withFeatures features).isScript = rule.isScript := by
  cases rule <;> rfl

theorem Rule.GrowsTo.refl (rule : Rule) : rule.GrowsTo rule where
  features := SortedSet.Subset.refl _
  eq := by cases rule <;> rfl

theorem Rule.GrowsTo.common_eq (h : rule.GrowsTo rule') :
    rule'.common = { rule.common with features := rule'.common.features } := by
  conv => lhs; rw [h.eq]
  exact Rule.common_withFeatures _ _

theorem Rule.GrowsTo.name_eq (h : rule.GrowsTo rule') : rule'.name = rule.name := by
  unfold Rule.name
  rw [h.common_eq]

theorem Rule.GrowsTo.isScript_eq (h : rule.GrowsTo rule') : rule'.isScript = rule.isScript := by
  rw [h.eq]
  exact Rule.isScript_withFeatures _ _

theorem Rule.GrowsTo.featuresFor (h : rule.GrowsTo rule') {asked asked' : NameSet}
    (ha : asked ⊆ asked') :
    (rule.common.featuresFor asked).Within (rule'.common.featuresFor asked') := by
  have hmap : rule'.common.featureMap = rule.common.featureMap := by rw [h.common_eq]
  unfold Target.featuresFor
  rw [hmap]
  apply FeatureMap.flatten_mono
  apply SortedSet.union_subset
  · exact SortedSet.Subset.trans h.features (SortedSet.subset_union_left _ _)
  · exact SortedSet.Subset.trans ha (SortedSet.subset_union_right _ _)

theorem RuleTable.GrowsTo.refl (table : RuleTable) : table.GrowsTo table where
  names_eq := rfl
  rules name _ rule hrule rule' hrule' := by
    obtain rfl : rule = rule' := Option.some.inj (hrule.symm.trans hrule')
    exact .refl rule

theorem RuleTable.GrowsTo.exists_get? (h : table.GrowsTo table')
    (hrule : table.get? name = some rule) :
    ∃ rule', table'.get? name = some rule' ∧ rule.GrowsTo rule' := by
  have hname := mem_names_of_get? hrule
  obtain ⟨rule', hrule'⟩ := exists_of_mem_names (h.names_eq ▸ hname)
  exact ⟨rule', hrule', h.rules name hname rule hrule rule' hrule'⟩

theorem RuleTable.GrowsTo.get?_eq_none (h : table.GrowsTo table') (hnone : table.get? name = none) :
    table'.get? name = none := by
  cases hrule : table'.get? name with
  | none => rfl
  | some rule' =>
    obtain ⟨rule, hrule⟩ := exists_of_mem_names (h.names_eq ▸ mem_names_of_get? hrule)
    rw [hnone] at hrule
    cases hrule

end

namespace UnitGraph

/-! ## Links of the smaller graph -/

/-- A graph whose root is a unit of another one, where every rule may declare more features. -/
structure Embeds (part g : UnitGraph) : Prop where
  host_eq : part.host = g.host
  table : part.table.GrowsTo g.table
  has : g.Has part.rootKey
  root : ∃ rule, g.rule? part.rootKey = some rule ∧ part.root.GrowsTo rule

/-- Where the graphs have the same rule for a unit. The root of the larger graph may have another one
there than in the table. -/
def Shared (part g : UnitGraph) (u : UnitKey) : Prop := u = part.rootKey ∨ u ≠ g.rootKey

section

variable {part g : UnitGraph} {u v : UnitKey} {asked asked' request : NameSet} {rule : Rule}

theorem Embeds.exists_rule (h : part.Embeds g) (hu : part.Shared g u)
    (hrule : part.rule? u = some rule) : ∃ rule', g.rule? u = some rule' ∧ rule.GrowsTo rule' := by
  unfold rule? at hrule
  split at hrule
  · next hroot =>
    cases hrule
    rw [hroot]
    exact h.root
  · next hne =>
    -- below its root the smaller graph has the rules of its table, and so has the larger one
    obtain ⟨rule', hrule', hgrows⟩ := h.table.exists_get? hrule
    refine ⟨rule', ?_, hgrows⟩
    rw [rule?, if_neg (hu.resolve_left hne)]
    exact hrule'

/-- What a rule needs it also needs with more declared features. -/
theorem Needs.of_growsTo {rule' : Rule} {platform : Platform} {labels : List String}
    {features features' : FeatureSelection} {edge : Edge} (hhost : part.host = g.host)
    (hgrows : rule.GrowsTo rule') (hf : features.Within features')
    (h : part.Needs rule platform labels features edge) :
    g.Needs rule' platform labels features' edge := by
  have hside : part.side rule platform = g.side rule' platform := by
    unfold side
    rw [hgrows.isScript_eq, hhost]
  cases h with
  | dep hname =>
    rw [hside]
    apply Needs.dep
    rw [hgrows.common_eq]
    exact hname
  | label hname =>
    rw [hside]
    exact .label hname
  | optional hname active =>
    rw [hside]
    apply Needs.optional
    · rw [hgrows.common_eq]
      exact hname
    · rw [hgrows.common_eq]
      exact hf.activated _ active
  | procMacro hname =>
    rw [hhost]
    apply Needs.procMacro
    rw [hgrows.common_eq]
    exact hname

/-- What a unit leads to in the smaller graph it leads to in the larger one. -/
theorem Embeds.link (h : part.Embeds g) (hu : part.Shared g u) (ha : asked ⊆ asked')
    (hlink : part.Link u asked v request) :
    ∃ request', request ⊆ request' ∧ g.Link u asked' v request' := by
  cases hlink with
  | @intro rule next labels edge hrule hselect hneeds hnext =>
    obtain ⟨rule', hrule', hgrows⟩ := h.exists_rule hu hrule
    obtain ⟨next', hnext', hgrows'⟩ := h.table.exists_get? hnext
    have hf := hgrows.featuresFor ha
    have hplace : part.place edge next = g.place edge next' := by
      unfold place
      rw [h.host_eq, hgrows'.common_eq]
    have hlocal : rule.common.localName = rule'.common.localName := by
      rw [hgrows.common_eq]
      rfl
    have hselect' : rule'.common.select u.platform = some (.compatible labels) := by
      rw [hgrows.common_eq]
      exact hselect
    rw [hplace, hlocal]
    exact ⟨_, hf.requests _,
      .intro hrule' hselect' (hneeds.of_growsTo h.host_eq hgrows hf) hnext'⟩

/-! ## What decides the verdict -/

theorem Embeds.dangling (h : part.Embeds g) (hu : part.Shared g u) (hdangling : part.Dangling u) :
    g.Dangling u := by
  obtain ⟨rule, labels, name, hrule, hselect, hname, hmissing⟩ := hdangling
  obtain ⟨rule', hrule', hgrows⟩ := h.exists_rule hu hrule
  refine ⟨rule', labels, name, hrule', ?_, ?_, h.table.get?_eq_none hmissing⟩
  · rw [hgrows.common_eq]
    exact hselect
  · rw [hgrows.common_eq]
    exact hname

theorem Embeds.unmatched (h : part.Embeds g) (hu : part.Shared g u)
    (hunmatched : part.Unmatched u) : g.Unmatched u := by
  obtain ⟨rule, map, hrule, hconstraints, hentry⟩ := hunmatched
  obtain ⟨rule', hrule', hgrows⟩ := h.exists_rule hu hrule
  refine ⟨rule', map, hrule', ?_, hentry⟩
  rw [hgrows.common_eq]
  exact hconstraints

theorem Embeds.barred (h : part.Embeds g) (hu : part.Shared g u) (hbarred : part.Barred u) :
    g.Barred u := by
  obtain ⟨rule, map, labels, viaFallback, hrule, hconstraints, hentry⟩ := hbarred
  obtain ⟨rule', hrule', hgrows⟩ := h.exists_rule hu hrule
  refine ⟨rule', map, labels, viaFallback, hrule', ?_, hentry⟩
  rw [hgrows.common_eq]
  exact hconstraints

end

end UnitGraph

/-- A unit of a smaller resolution, and the same unit in a larger one. -/
structure BuildUnit.Within (unit whole : BuildUnit) : Prop where
  key_eq : unit.key = whole.key
  kind_eq : unit.kind = whole.kind
  compilerFlags_eq : unit.compilerFlags = whole.compilerFlags
  features : unit.features ⊆ whole.features
  deps : unit.deps ⊆ whole.deps

namespace Resolver

section

variable {part g : UnitGraph} {flags : List String} {requested requested' : Requests}
variable {outcome : Walk.Outcome} {walk walk' : Walk} {res smaller : Resolved} {u v : UnitKey}

/-! ## The smaller graph -/

/-- What the last walk of the larger graph knows is closed in the smaller one. -/
theorem LastWalk.closed_of_embeds (h : LastWalk g flags requested outcome walk)
    (hembeds : part.Embeds g) :
    part.Closed (fun u => g.Has u ∧ part.Shared g u) requested.asked where
  root := ⟨hembeds.has, .inl rfl⟩
  link u v request hu hlink := by
    obtain ⟨hhas, hshared⟩ := hu
    obtain ⟨request', hrequest, hlink'⟩ :=
      hembeds.link hshared (SortedSet.Subset.refl _) hlink
    have hleads : g.Leads u v := (h.follows_iff hhas).1 ⟨request', hlink'⟩
    refine ⟨⟨hleads.has, .inr ?_⟩, SortedSet.Subset.trans hrequest ?_⟩
    · -- nothing leads to the root of the larger graph
      rintro rfl
      exact h.not_leads_rootKey hleads
    · exact (h.closed.link u v request' (h.done_iff.2 hhas) hlink').2

theorem LastWalk.has_of_embeds (h : LastWalk g flags requested outcome walk)
    (hembeds : part.Embeds g) (hu : part.Has u) : g.Has u ∧ part.Shared g u := by
  obtain ⟨asked, hasked⟩ := hu
  exact (hasked.of_closed (h.closed_of_embeds hembeds)).1

theorem LastWalk.leads_of_embeds (h : LastWalk g flags requested outcome walk)
    (hembeds : part.Embeds g) (hleads : part.Leads u v) : g.Leads u v := by
  obtain ⟨asked, request, hasked, hlink⟩ := hleads
  obtain ⟨⟨hhas, hshared⟩, hsubset⟩ := hasked.of_closed (h.closed_of_embeds hembeds)
  obtain ⟨request', -, hlink'⟩ := hembeds.link hshared hsubset hlink
  exact (h.follows_iff hhas).1 ⟨request', hlink'⟩

/-- What is asked of a unit in the smaller graph is also asked of it in the larger one. -/
theorem LastWalk.asked_subset_of_embeds (h : LastWalk g flags requested outcome walk)
    (hembeds : part.Embeds g) (hbacked : part.Backs requested') (u : UnitKey) :
    requested'.asked u ⊆ requested.asked u := by
  intro f hf
  obtain ⟨asked, hasked, hmem⟩ := hbacked u f hf
  exact (hasked.of_closed (h.closed_of_embeds hembeds)).2 f hmem

/-- Nothing is wrong in the smaller graph if nothing is wrong in the larger one. -/
theorem LastWalk.not_faulty_of_embeds (h : LastWalk g flags requested outcome walk)
    (hembeds : part.Embeds g) : ¬ part.Faulty := by
  intro hfaulty
  apply h.not_faulty
  rcases hfaulty with ⟨u, hu, hwrong⟩ | ⟨u, hcycle⟩
  · obtain ⟨hhas, hshared⟩ := h.has_of_embeds hembeds hu
    exact .inl ⟨u, hhas, hwrong.imp (hembeds.dangling hshared) (hembeds.unmatched hshared)⟩
  · have hleads : part.Leads ≤ g.Leads := fun _ _ => h.leads_of_embeds hembeds
    exact .inr ⟨u, TransGen.mono hleads u u hcycle⟩

theorem LastWalk.not_barred_of_embeds {unit : BuildUnit}
    (h : LastWalk g flags requested (.compatible unit) walk) (hembeds : part.Embeds g)
    (hu : part.Has u) : ¬ part.Barred u := by
  obtain ⟨hhas, hshared⟩ := h.has_of_embeds hembeds hu
  exact fun hbarred => h.not_barred hhas (hembeds.barred hshared hbarred)

/-- Every unit of a smaller resolution is within one of the larger resolution. -/
theorem IsRead.exists_within_of_embeds (h : IsRead g flags requested walk res)
    (hembeds : part.Embeds g) (hpart : IsRead part flags requested' walk' smaller)
    {unit : BuildUnit} (hunit : unit ∈ smaller.unit :: smaller.closure) :
    ∃ whole ∈ res.unit :: res.closure, unit.Within whole := by
  obtain ⟨hhas, hshared⟩ := h.last.has_of_embeds hembeds (hpart.has_iff.2 ⟨unit, hunit, rfl⟩)
  obtain ⟨whole, hwhole, hkey⟩ := h.has_iff.1 hhas
  obtain ⟨⟨rule, hrule, hfeatures⟩, hdeps⟩ := hpart.of_mem hunit
  obtain ⟨⟨rule', hrule', hfeatures'⟩, hdeps'⟩ := h.of_mem hwhole
  -- the two units are told apart by their rules alone, and by what is asked of them
  have hgrows : rule.GrowsTo rule' := by
    obtain ⟨rule'', hrule'', hgrows⟩ := hembeds.exists_rule hshared hrule
    rw [hkey, hrule''] at hrule'
    cases hrule'
    exact hgrows
  obtain ⟨hkind, hflags⟩ := hpart.declared hunit hrule
  obtain ⟨hkind', hflags'⟩ := h.declared hwhole hrule'
  refine ⟨whole, hwhole, hkey.symm, ?_, ?_, ?_, ?_⟩
  · rw [hkind, hkind', hgrows.common_eq]
  · rw [hflags, hflags', hgrows.common_eq]
  · rw [hfeatures, hfeatures', hkey]
    have hasked := h.last.asked_subset_of_embeds hembeds hpart.last.backed unit.key
    exact (hgrows.featuresFor hasked).enabled
  · intro v hv
    rw [hdeps', hkey]
    exact h.last.leads_of_embeds hembeds ((hdeps v).1 hv)

end

end Resolver

end BuildRules
