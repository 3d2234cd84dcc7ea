import BuildRules.Proofs.Resolution.Outcome

/-!
# Visits

What a walk knows is right at every moment (`Sound`): the units that are done are settled, have no
cycle below them, and stand in the order after those they depend on. Main statement: a visit keeps
this, ends with its unit done, and stops early only for something that is wrong below the root
(`visit_correct`).
-/

namespace BuildRules

open Relation

namespace UnitGraph

variable (g : UnitGraph) (requested : Requests)

/-! ## Ways of a walk -/

/-- The units below the root when the given features are asked of units. -/
def Reached (u : UnitKey) : Prop := ReflTransGen (g.Follows requested) g.rootKey u

/-- The ways on which a walk comes to a unit, latest unit first. No way goes on from a unit that it
has been through. -/
inductive Comes : List UnitKey → UnitKey → Prop
  | start : Comes [] g.rootKey
  | follow {path : List UnitKey} {u v : UnitKey} (hu : Comes path u) (hfresh : u ∉ path)
      (hv : g.Follows requested u v) : Comes (u :: path) v

variable {g requested}

theorem Comes.reached {path : List UnitKey} {u : UnitKey} (h : g.Comes requested path u) :
    g.Reached requested u := by
  induction h with
  | start => exact .refl
  | follow _ _ hv ih => exact .tail ih hv

theorem Comes.follows_of_mem {path : List UnitKey} {u w : UnitKey} (h : g.Comes requested path u)
    (hw : w ∈ path) : TransGen (g.Follows requested) w u := by
  induction h with
  | start => cases hw
  | follow _ _ hv ih =>
    rcases List.mem_cons.1 hw with rfl | hw
    · exact .single hv
    · exact .tail (ih hw) hv

theorem Comes.rootKey_mem {path : List UnitKey} {u : UnitKey} (h : g.Comes requested path u) :
    g.rootKey ∈ u :: path := by
  induction h with
  | start => exact List.mem_cons_self
  | follow _ _ _ ih => exact List.mem_cons_of_mem _ ih

variable (g requested)

/-- What can be wrong below the root, with the error that tells it. -/
inductive Refused : RuleError → Prop
  | undefined {u : UnitKey} {rule : Rule} {labels : List String} {name : String}
      (hu : g.Reached requested u) (hrule : g.rule? u = some rule)
      (hselect : rule.common.select u.platform = some (.compatible labels))
      (hname : name ∈ rule.common.declaredDeps ++ labels) (hmissing : g.table.get? name = none) :
      Refused (.undefinedDependency rule.name name)
  | unmatched {u : UnitKey} {rule : Rule} (hu : g.Reached requested u)
      (hrule : g.rule? u = some rule) (hselect : rule.common.select u.platform = none) :
      Refused (.noMatchingCondition rule.name u.platform.text)
  | cycle {path : List UnitKey} {u : UnitKey} (hpath : g.Comes requested path u) (hu : u ∈ path) :
      Refused (.cycle ((closePath path u).map UnitKey.name))

theorem Needs.mem_names {rule : Rule} {platform : Platform} {labels : List String}
    {features : FeatureSelection} {edge : Edge}
    (h : g.Needs rule platform labels features edge) :
    edge.name ∈ rule.common.declaredDeps ++ labels := by
  unfold Target.declaredDeps
  cases h <;> simp_all

end UnitGraph

namespace Walk

/-! ## What a walk knows -/

/-- Compatible units in an order in which each comes after those it depends on, and none twice. -/
inductive Ordered (done : SortedMap UnitKey Outcome) : List UnitKey → Prop
  | nil : Ordered done []
  | concat {l : List UnitKey} {u : UnitKey} {unit : BuildUnit} (hl : Ordered done l)
      (hfresh : u ∉ l) (hu : done.get? u = some (.compatible unit))
      (hdeps : ∀ d ∈ unit.deps, d ∈ l) : Ordered done (l ++ [u])

/-- A walk knows all that an earlier one did. -/
structure Grows (walk walk' : Walk) : Prop where
  done : ∀ u o, walk.done.get? u = some o → walk'.done.get? u = some o
  demanded : ∀ u, walk.demanded.asked u ⊆ walk'.demanded.asked u

theorem Grows.refl (walk : Walk) : walk.Grows walk :=
  ⟨fun _ _ h => h, fun _ => SortedSet.Subset.refl _⟩

theorem Grows.trans {walk walk' walk'' : Walk} (h : walk.Grows walk') (h' : walk'.Grows walk'') :
    walk.Grows walk'' :=
  ⟨fun u o hu => h'.done u o (h.done u o hu),
    fun u => SortedSet.Subset.trans (h.demanded u) (h'.demanded u)⟩

theorem Ordered.mono {done done' : SortedMap UnitKey Outcome} {l : List UnitKey}
    (hle : ∀ u o, done.get? u = some o → done'.get? u = some o) (h : Ordered done l) :
    Ordered done' l := by
  induction h with
  | nil => exact .nil
  | concat _ hfresh hu hdeps ih => exact .concat ih hfresh (hle _ _ hu) hdeps

theorem Ordered.done_of_mem {done : SortedMap UnitKey Outcome} {l : List UnitKey} {u : UnitKey}
    (h : Ordered done l) (hu : u ∈ l) : ∃ unit, done.get? u = some (.compatible unit) := by
  induction h with
  | nil => cases hu
  | concat _ _ hdone _ ih =>
    rcases List.mem_append.1 hu with hu | hu
    · exact ih hu
    · obtain rfl := List.mem_singleton.1 hu
      exact ⟨_, hdone⟩

/-- What is known at any moment of a walk. -/
structure Sound (g : UnitGraph) (flags : List String) (requested : Requests) (walk : Walk) :
    Prop where
  settled : ∀ u o, walk.done.get? u = some o → ∃ rule, g.rule? u = some rule ∧
    Settled (g.setting flags requested) walk.done rule u.platform o
  /-- No cycle can be reached from a unit that is done. -/
  grounded : ∀ u o, walk.done.get? u = some o → Acc (fun v u => g.Follows requested u v) u
  reached : ∀ u o, walk.done.get? u = some o → g.Reached requested u
  /-- What a unit asks has been noted by the time it is done. -/
  noted : ∀ u o, walk.done.get? u = some o → ∀ v request,
    g.Link u (requested.asked u) v request → request ⊆ walk.demanded.asked v
  /-- Nothing has been noted that no unit asks. -/
  justified : ∀ v, ∀ f ∈ walk.demanded.asked v, ∃ u request,
    g.Reached requested u ∧ g.Link u (requested.asked u) v request ∧ f ∈ request
  ordered : Ordered walk.done walk.order
  listed : ∀ u unit, walk.done.get? u = some (.compatible unit) → u ∈ walk.order

section

variable {g : UnitGraph} {flags : List String} {requested : Requests} {walk : Walk}

theorem Sound.empty : Sound g flags requested {} where
  settled _ _ h := by cases h
  grounded _ _ h := by cases h
  reached _ _ h := by cases h
  noted _ _ h := by cases h
  justified v f hf := absurd hf (SortedSet.not_mem_empty f)
  ordered := .nil
  listed _ _ h := by cases h

theorem Sound.key_eq (h : Sound g flags requested walk) (u : UnitKey) (unit : BuildUnit)
    (hu : walk.done.get? u = some (.compatible unit)) : unit.key = u := by
  obtain ⟨rule, hrule, hsettled⟩ := h.settled u _ hu
  obtain ⟨labels, ends, -, -, rfl⟩ := hsettled.eq_unitFrom
  have hname : rule.common.name = u.name := UnitGraph.name_of_rule? hrule
  rw [Setting.unitFrom, hname]

/-- What a reached unit asks of another one may be noted at any time. -/
theorem Sound.demand {u v : UnitKey} {request : NameSet} (h : Sound g flags requested walk)
    (hu : g.Reached requested u) (hlink : g.Link u (requested.asked u) v request) :
    Sound g flags requested { walk with demanded := walk.demanded.add v request } where
  settled := h.settled
  grounded := h.grounded
  reached := h.reached
  noted u o hu w request' hlink' :=
    SortedSet.Subset.trans (h.noted u o hu w request' hlink') (Requests.asked_subset_add _ _ _ _)
  justified w f hf := by
    rcases Requests.mem_asked_add.1 hf with hold | ⟨rfl, hnew⟩
    · exact h.justified w f hold
    · exact ⟨u, request, hu, hlink, hnew⟩
  ordered := h.ordered
  listed := h.listed

theorem get?_done_finish (walk : Walk) (key u : UnitKey) (outcome : Outcome) :
    (walk.finish key outcome).done.get? u =
      if u = key then some outcome else walk.done.get? u :=
  SortedMap.get?_insert key u outcome walk.done

theorem grows_finish {u : UnitKey} {outcome : Outcome} (hu : walk.done.get? u = none) :
    walk.Grows (walk.finish u outcome) where
  done w o hw := by
    rw [get?_done_finish]
    split
    · next h =>
      subst h
      rw [hu] at hw
      cases hw
    · exact hw
  demanded _ := SortedSet.Subset.refl _

theorem done_finish_cases {u w : UnitKey} {outcome o : Outcome}
    (hw : (walk.finish u outcome).done.get? w = some o) :
    w = u ∧ o = outcome ∨ walk.done.get? w = some o := by
  rw [get?_done_finish] at hw
  split at hw
  · next heq => exact .inl ⟨heq, (Option.some.inj hw).symm⟩
  · exact .inr hw

/-- What holds of the unit that has just been done and of all that were done before. -/
theorem forall_done_finish {u : UnitKey} {outcome : Outcome} {p : UnitKey → Outcome → Prop}
    (hnew : p u outcome) (hold : ∀ w o, walk.done.get? w = some o → p w o) :
    ∀ w o, (walk.finish u outcome).done.get? w = some o → p w o := by
  intro w o hw
  rcases done_finish_cases hw with ⟨rfl, rfl⟩ | hw
  · exact hnew
  · exact hold w o hw

/-- A unit that depends on compatible units only comes after them. -/
theorem Sound.ordered_finish {u : UnitKey} {rule : Rule} {outcome : Outcome}
    (h : Sound g flags requested walk) (hnone : walk.done.get? u = none)
    (hrule : g.rule? u = some rule)
    (hsettled : Settled (g.setting flags requested) walk.done rule u.platform outcome) :
    Ordered (walk.finish u outcome).done (walk.finish u outcome).order := by
  have hgrows : walk.Grows (walk.finish u outcome) := grows_finish hnone
  have hordered := h.ordered.mono hgrows.done
  cases outcome with
  | incompatible reason => exact hordered
  | compatible unit =>
    obtain ⟨-, hdeps⟩ := hsettled.compatible hrule h.key_eq
    have hdone : (walk.finish u (.compatible unit)).done.get? u = some (.compatible unit) := by
      rw [get?_done_finish, if_pos rfl]
    refine .concat hordered (fun hmem => ?_) hdone fun d hd => ?_
    · obtain ⟨unit', hunit'⟩ := h.ordered.done_of_mem hmem
      rw [hnone] at hunit'
      cases hunit'
    · obtain ⟨hiff, hcompatible⟩ := hdeps d
      obtain ⟨unit', hunit'⟩ := hcompatible (hiff.1 hd)
      exact h.listed d unit' hunit'

/-- A unit that is settled by the units that are done can be done itself. -/
theorem Sound.finish {u : UnitKey} {rule : Rule} {outcome : Outcome}
    (h : Sound g flags requested walk) (hnone : walk.done.get? u = none)
    (hrule : g.rule? u = some rule) (hreached : g.Reached requested u)
    (hsettled : Settled (g.setting flags requested) walk.done rule u.platform outcome)
    (hnoted : ∀ v request, g.Link u (requested.asked u) v request →
      request ⊆ walk.demanded.asked v) :
    Sound g flags requested (walk.finish u outcome) where
  settled := by
    have hgrows : walk.Grows (walk.finish u outcome) := grows_finish hnone
    refine forall_done_finish ⟨rule, hrule, hsettled.mono hgrows.done⟩ fun w o hw => ?_
    obtain ⟨rule', hrule', hsettled'⟩ := h.settled w o hw
    exact ⟨rule', hrule', hsettled'.mono hgrows.done⟩
  grounded := by
    refine forall_done_finish (.intro u fun v hv => ?_) h.grounded
    obtain ⟨o, ho⟩ := hsettled.done_of_follows hrule hv
    exact h.grounded v o ho
  reached := forall_done_finish hreached h.reached
  noted := forall_done_finish hnoted h.noted
  justified := h.justified
  ordered := h.ordered_finish hnone hrule hsettled
  listed w unit hw := by
    rcases done_finish_cases hw with ⟨rfl, rfl⟩ | hw
    · exact List.mem_append_right _ List.mem_cons_self
    · have hmem := h.listed w unit hw
      cases outcome with
      | compatible => exact List.mem_append_left _ hmem
      | incompatible => exact hmem

end

/-! ## One visit -/

section

variable (g : UnitGraph) (flags : List String) (requested : Requests)

/-- What holds after a visit to a unit that a walk has come to on a path. -/
structure Visited (path : List UnitKey) (u : UnitKey) (walk : Walk) (result : Outcome × Walk) :
    Prop where
  sound : Sound g flags requested result.2
  grows : walk.Grows result.2
  done : result.2.done.get? u = some result.1
  /-- The units of the path are not done before the walk has come back to them. -/
  off : ∀ w ∈ path, result.2.done.get? w = none

/-- A walk is refused only for what is wrong below the root. -/
def Justifies (stop : Stop) : Prop := ∀ e, stop = .refused e → g.Refused requested e

/-- Visits from a path keep what a walk knows right. -/
def Correct (path : List UnitKey) (visit : Visit) : Prop :=
  ∀ rule platform walk, g.Comes requested path ⟨rule.name, platform⟩ →
    (⟨rule.name, platform⟩ ∉ path → g.rule? ⟨rule.name, platform⟩ = some rule) →
    Sound g flags requested walk → (∀ w ∈ path, walk.done.get? w = none) →
    Meets (visit rule platform walk)
      (Visited g flags requested path ⟨rule.name, platform⟩ walk) (Justifies g requested)

/-- What holds while the edges of a unit are followed, after some of them. -/
structure Following (path : List UnitKey) (u : UnitKey) (rule : Rule) (walk : Walk)
    (past : List Edge) (state : Gathered × Walk) : Prop where
  sound : Sound g flags requested state.2
  grows : walk.Grows state.2
  off : ∀ w ∈ u :: path, state.2.done.get? w = none
  ends : ∃ ends : List End, ends.map End.edge = past ∧
    (∀ e ∈ ends, g.table.get? e.edge.name = some e.rule) ∧
    (∀ e ∈ ends, state.2.done.get? (g.place e.edge e.rule) = some e.outcome) ∧
    (∀ e ∈ ends, (rule.common.featuresFor (requested.asked u)).requestsOn
      (rule.common.localName e.edge.name) ⊆ state.2.demanded.asked (g.place e.edge e.rule)) ∧
    state.1 = .ofEnds rule.common ((g.setting flags requested).context rule.common u.platform
      ((g.setting flags requested).features rule.common u.platform)) ends

end

section

variable {g : UnitGraph} {flags : List String} {requested : Requests}
variable {visit : Visit} {path : List UnitKey} {u : UnitKey} {rule : Rule} {walk : Walk}
variable {labels : List String}

theorem Visited.following {past : List Edge} {edge : Edge} {next : Rule} {gathered : Gathered}
    {before : Walk} {result : Outcome × Walk}
    (h : Following g flags requested path u rule walk past (gathered, before))
    (hnext : g.table.get? edge.name = some next)
    (hvisited : Visited g flags requested (u :: path) (g.place edge next)
      { before with
        demanded := before.demanded.add (g.place edge next)
          (((g.setting flags requested).features rule.common u.platform).requestsOn
            (rule.common.localName edge.name)) }
      result)
    (hrule : g.rule? u = some rule) :
    Following g flags requested path u rule walk (past ++ [edge])
      (gathered.add rule.common ((g.setting flags requested).context rule.common u.platform
        ((g.setting flags requested).features rule.common u.platform)) edge next result.1,
        result.2) := by
  obtain ⟨ends, hedges, hrules, hdone, hnoted, hgathered⟩ := h.ends
  have hstep : before.Grows result.2 :=
    ⟨hvisited.grows.done, fun w => SortedSet.Subset.trans (Requests.asked_subset_add _ _ _ _)
      (hvisited.grows.demanded w)⟩
  refine ⟨hvisited.sound, h.grows.trans hstep, hvisited.off,
    ends ++ [⟨edge, next, result.1⟩], by simp [hedges], ?_, ?_, ?_, ?_⟩
  · intro e he
    rcases List.mem_append.1 he with he | he
    · exact hrules e he
    · obtain rfl := List.mem_singleton.1 he
      exact hnext
  · intro e he
    rcases List.mem_append.1 he with he | he
    · exact hstep.done _ _ (hdone e he)
    · obtain rfl := List.mem_singleton.1 he
      exact hvisited.done
  · intro e he
    rcases List.mem_append.1 he with he | he
    · exact SortedSet.Subset.trans (hnoted e he) (hstep.demanded _)
    · obtain rfl := List.mem_singleton.1 he
      rw [features_setting hrule] at hvisited
      exact SortedSet.Subset.trans (Requests.subset_asked_add _ _ _) (hvisited.grows.demanded _)
  · rw [Gathered.ofEnds_concat, ← hgathered]

/-- Following one more edge. -/
theorem followEdge_meets (hvisit : Correct g flags requested (u :: path) visit)
    (hcomes : g.Comes requested path u) (hfresh : u ∉ path) (hrule : g.rule? u = some rule)
    (hselect : rule.common.select u.platform = some (.compatible labels))
    {edge : Edge}
    (hedge : g.Needs rule u.platform labels (rule.common.featuresFor (requested.asked u)) edge)
    {past : List Edge} {state : Gathered × Walk}
    (h : Following g flags requested path u rule walk past state) :
    Meets (followEdge (g.setting flags requested) visit rule.common u.platform
        ((g.setting flags requested).features rule.common u.platform) state edge)
      (Following g flags requested path u rule walk (past ++ [edge])) (Justifies g requested) := by
  obtain ⟨gathered, before⟩ := state
  unfold followEdge
  have hlookup : Meets (refuse ((g.setting flags requested).lookup rule.common edge.name))
      (fun next => g.table.get? edge.name = some next) (Justifies g requested) := by
    apply Setting.lookup_meets.mono (fun next hnext => hnext)
    rintro stop ⟨hmissing, rfl⟩ e ⟨⟩
    exact .undefined hcomes.reached hrule hselect hedge.mem_names hmissing
  apply hlookup.bind
  intro next hnext
  have hlink := UnitGraph.Link.intro hrule hselect hedge hnext
  have hname : next.name = edge.name := RuleTable.name_of_get? hnext
  have hkey : (⟨next.name, (g.place edge next).platform⟩ : UnitKey) = g.place edge next := by
    rw [hname]
    rfl
  have hway : g.Comes requested (u :: path) (g.place edge next) := .follow hcomes hfresh ⟨_, hlink⟩
  have hvisited := hvisit next (g.place edge next).platform
    { before with
      demanded := before.demanded.add (g.place edge next)
        (((g.setting flags requested).features rule.common u.platform).requestsOn
          (rule.common.localName edge.name)) }
  rw [hkey] at hvisited
  refine (hvisited hway (fun hnew => ?_) ?_ h.off).bind fun result hresult =>
    meets_pure.2 (hresult.following h hnext hrule)
  · -- only the root has a rule that is not the table's, and the root is on the way
    have hroot : g.place edge next ≠ g.rootKey := fun heq =>
      hnew (heq ▸ hcomes.rootKey_mem)
    unfold UnitGraph.rule?
    rw [if_neg hroot]
    exact hnext
  · rw [features_setting hrule]
    exact h.sound.demand hcomes.reached hlink

/-- Visiting what a rule needs settles it. -/
theorem visitDependencies_meets (hvisit : Correct g flags requested (u :: path) visit)
    (hcomes : g.Comes requested path u) (hfresh : u ∉ path) (hrule : g.rule? u = some rule)
    (hwalk : Sound g flags requested walk) (hoff : ∀ w ∈ u :: path, walk.done.get? w = none) :
    Meets (visitDependencies (g.setting flags requested) visit rule u.platform walk)
      (fun result => Sound g flags requested result.2 ∧ walk.Grows result.2 ∧
        (∀ w ∈ u :: path, result.2.done.get? w = none) ∧
        Settled (g.setting flags requested) result.2.done rule u.platform result.1 ∧
        ∀ v request, g.Link u (requested.asked u) v request →
          request ⊆ result.2.demanded.asked v)
      (Justifies g requested) := by
  unfold visitDependencies
  cases hselect : rule.common.select u.platform with
  | none =>
    simp only [hselect]
    rintro e ⟨⟩
    exact .unmatched hcomes.reached hrule hselect
  | some selection =>
    cases selection with
    | incompatible viaFallback =>
      simp only [hselect]
      refine ⟨hwalk, .refl walk, hoff, .barred hselect, fun v request hlink => ?_⟩
      obtain ⟨labels, hselect'⟩ := hlink.takes_part hrule
      rw [hselect] at hselect'
      cases hselect'
    | compatible labels =>
      simp only [hselect]
      have hedges : Meets
          (refuse ((g.setting flags requested).edges rule u.platform labels
            ((g.setting flags requested).features rule.common u.platform)))
          (fun edges => (∀ d ∈ rule.common.optionalDeps, g.table.get? d ≠ none) ∧
            edges = (g.setting flags requested).openEdges rule u.platform labels
              ((g.setting flags requested).features rule.common u.platform))
          (Justifies g requested) := by
        apply Setting.edges_meets.mono (fun edges hedges => hedges)
        rintro stop ⟨d, hd, hmissing, rfl⟩ e ⟨⟩
        refine .undefined hcomes.reached hrule hselect ?_ hmissing
        exact List.mem_append_left _ (List.mem_append_right _ hd)
      apply hedges.bind
      intro edges hopen
      obtain ⟨hoptional, rfl⟩ := hopen
      have hinit : Following g flags requested path u rule walk [] ({}, walk) :=
        ⟨hwalk, .refl walk, hoff, [], by simp [Gathered.ofEnds]⟩
      refine (Meets.foldlM _ hinit fun past edge rest state hsplit hstate => ?_).bind
        fun state hstate => ?_
      · have hmem : edge ∈ (g.setting flags requested).openEdges rule u.platform labels
            ((g.setting flags requested).features rule.common u.platform) := by
          rw [hsplit]
          exact List.mem_append_right _ List.mem_cons_self
        rw [features_setting hrule] at hmem
        exact followEdge_meets hvisit hcomes hfresh hrule hselect (mem_openEdges_iff.1 hmem)
          hstate
      · obtain ⟨ends, hedges, hrules, hdone, hnoted, hgathered⟩ := hstate.ends
        have hends : EndsOf (g.setting flags requested) rule u.platform labels ends :=
          ⟨hselect, hoptional, hedges, hrules⟩
        refine ⟨hstate.sound, hstate.grows, hstate.off, ?_, fun v request hlink => ?_⟩
        · rw [hgathered]
          exact .taken hends hdone
        · obtain ⟨e, he, rfl, rfl⟩ := hends.exists_of_link hrule hlink
          exact hnoted e he

/-- A visit at any depth keeps what a walk knows right. -/
theorem visit_correct (depth : Nat) (path : List UnitKey) :
    Correct g flags requested path (Walk.visit (g.setting flags requested) depth path) := by
  -- visits to what a rule needs are made one step less deep and from a path that is one unit longer
  induction depth generalizing path with
  | zero =>
    rintro rule platform walk - - - - e ⟨⟩
  | succ depth ih =>
    intro rule platform walk hcomes hrule hwalk hoff
    rw [Walk.visit, visitFrom]
    cases hdone : walk.done.get? ⟨rule.name, platform⟩ with
    | some outcome =>
      dsimp only
      exact ⟨hwalk, .refl walk, hdone, hoff⟩
    | none =>
      dsimp only
      split
      · next hcycle =>
        rintro e ⟨⟩
        exact .cycle hcomes hcycle
      · next hfresh =>
        have hoff' : ∀ w ∈ ⟨rule.name, platform⟩ :: path, walk.done.get? w = none := by
          intro w hw
          rcases List.mem_cons.1 hw with rfl | hw
          · exact hdone
          · exact hoff w hw
        refine (visitDependencies_meets (ih (⟨rule.name, platform⟩ :: path)) hcomes hfresh
          (hrule hfresh) hwalk hoff').bind fun result hresult => meets_pure.2 ?_
        obtain ⟨hsound, hgrows, hoff'', hsettled, hnoted⟩ := hresult
        have hnone := hoff'' ⟨rule.name, platform⟩ List.mem_cons_self
        refine ⟨hsound.finish hnone (hrule hfresh) hcomes.reached hsettled hnoted,
          hgrows.trans (grows_finish hnone), ?_, fun w hw => ?_⟩
        · rw [get?_done_finish, if_pos rfl]
        · have hne : w ≠ ⟨rule.name, platform⟩ := fun heq => hfresh (heq ▸ hw)
          rw [get?_done_finish, if_neg hne]
          exact hoff'' w (List.mem_cons_of_mem _ hw)

end

end Walk

end BuildRules
