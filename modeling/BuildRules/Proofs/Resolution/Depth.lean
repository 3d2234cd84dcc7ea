import BuildRules.Proofs.Resolution.Outcome
import Mathlib.Data.Finset.Prod
import Mathlib.Data.Finset.Card
import Mathlib.Data.List.Find

/-!
# How deep a walk goes

A walk only comes to units whose name is the root's or in the table and whose platform is the one
built for or the host, and its path holds none of them twice. Main statement: a walk that is granted
one step more than there are such units never wants for depth, and any further depth changes nothing
(`visitOn_eq_visit`, `visit_not_exhausted`).
-/

namespace BuildRules

namespace UnitGraph

variable (g : UnitGraph)

/-- The units of the given names at the platform built for and at the host. -/
def unitsNamed (names : List String) : Finset UnitKey :=
  (names.toFinset ×ˢ {g.platform, g.host}).image fun p => ⟨p.1, p.2⟩

/-- The graph that another table gives. -/
def withTable (table : RuleTable) : UnitGraph := { g with table }

/-- The units that a walk can come to. -/
def units : Finset UnitKey := g.unitsNamed (g.root.name :: g.table.names)

variable {g}

theorem mem_unitsNamed_iff {names : List String} {u : UnitKey} :
    u ∈ g.unitsNamed names ↔ u.name ∈ names ∧ (u.platform = g.platform ∨ u.platform = g.host) := by
  obtain ⟨name, platform⟩ := u
  simp [unitsNamed]

theorem card_unitsNamed_le (g : UnitGraph) (names : List String) :
    (g.unitsNamed names).card ≤ 2 * names.length := by
  have hplatforms : ({g.platform, g.host} : Finset Platform).card ≤ 2 := Finset.card_le_two
  calc (g.unitsNamed names).card
      ≤ (names.toFinset ×ˢ {g.platform, g.host}).card := Finset.card_image_le
    _ = names.toFinset.card * ({g.platform, g.host} : Finset Platform).card :=
        Finset.card_product _ _
    _ ≤ names.length * 2 := Nat.mul_le_mul (List.toFinset_card_le _) hplatforms
    _ = 2 * names.length := Nat.mul_comm _ _

theorem card_units_le (g : UnitGraph) : g.units.card ≤ 2 * (g.table.size + 1) := by
  have h := g.card_unitsNamed_le (g.root.name :: g.table.names)
  rwa [List.length_cons, RuleTable.length_names] at h

theorem rootKey_mem_units : g.rootKey ∈ g.units :=
  mem_unitsNamed_iff.2 ⟨List.mem_cons_self, .inl rfl⟩

/-- What a unit needs has its name in the table and stays on the two platforms. -/
theorem Needs.place_mem_unitsNamed {rule next : Rule} {u : UnitKey} {labels : List String}
    {features : FeatureSelection} {edge : Edge} (hu : u ∈ g.units)
    (h : g.Needs rule u.platform labels features edge)
    (hnext : g.table.get? edge.name = some next) :
    g.place edge next ∈ g.unitsNamed g.table.names := by
  have hside : g.side rule u.platform = g.platform ∨ g.side rule u.platform = g.host := by
    unfold side
    split
    · exact .inr rfl
    · exact (mem_unitsNamed_iff.1 hu).2
  have hedge : edge.platform = g.platform ∨ edge.platform = g.host := by
    cases h with
    | dep | label | optional => exact hside
    | procMacro => exact .inr rfl
  refine mem_unitsNamed_iff.2 ⟨RuleTable.mem_names_of_get? hnext, ?_⟩
  unfold place
  dsimp only
  split
  · exact .inr rfl
  · exact hedge

theorem mem_units_of_mem_names {u : UnitKey} (h : u ∈ g.unitsNamed g.table.names) :
    u ∈ g.units := by
  obtain ⟨hname, hplatform⟩ := mem_unitsNamed_iff.1 h
  exact mem_unitsNamed_iff.2 ⟨List.mem_cons_of_mem _ hname, hplatform⟩

end UnitGraph

namespace Walk

/-! ## Watching the path -/

/-- A visit that gives up as soon as it is made from a path that fails a test. -/
def visitOn (s : Setting) (fits : List UnitKey → Bool) : (depth : Nat) → List UnitKey → Visit
  | 0, _ => fun _ _ _ => .error .exhausted
  | depth + 1, path =>
    if fits path then visitFrom s (visitOn s fits depth) path
    else fun _ _ _ => .error .exhausted

/-- Whether a path holds no unit twice, and only units that a walk can come to. -/
def isDirect (g : UnitGraph) (path : List UnitKey) : Bool := path.Nodup ∧ ∀ u ∈ path, u ∈ g.units

section

variable {g : UnitGraph} {flags : List String} {requested : Requests}

theorem isDirect_iff {path : List UnitKey} :
    isDirect g path ↔ path.Nodup ∧ ∀ u ∈ path, u ∈ g.units :=
  decide_eq_true_iff

theorem isDirect_cons {path : List UnitKey} {u : UnitKey} (h : isDirect g path)
    (hu : u ∈ g.units) (hfresh : u ∉ path) : isDirect g (u :: path) := by
  obtain ⟨hnodup, hunits⟩ := isDirect_iff.1 h
  refine isDirect_iff.2 ⟨List.nodup_cons.2 ⟨hfresh, hnodup⟩, fun w hw => ?_⟩
  rcases List.mem_cons.1 hw with rfl | hw
  · exact hu
  · exact hunits w hw

theorem length_le_card_units {path : List UnitKey} (h : isDirect g path) :
    path.length ≤ g.units.card := by
  obtain ⟨hnodup, hunits⟩ := isDirect_iff.1 h
  rw [← List.toFinset_card_of_nodup hnodup]
  exact Finset.card_le_card fun u hu => hunits u (List.mem_toFinset.1 hu)

theorem Setting.lookup_congr {s : Setting} {table : RuleTable} {target : Target} {name : String}
    (h : table.get? name = s.table.get? name) :
    { s with table }.lookup target name = s.lookup target name := by
  unfold lookup
  dsimp only
  rw [h]

/-- The edges of a rule depend on which of its optional dependencies the table lacks. -/
theorem Setting.edges_congr {s : Setting} {table : RuleTable} {rule : Rule} {platform : Platform}
    {labels : List String} {features : FeatureSelection}
    (h : ∀ d ∈ rule.common.optionalDeps, (table.get? d).isNone = (s.table.get? d).isNone) :
    { s with table }.edges rule platform labels features =
      s.edges rule platform labels features := by
  unfold edges activeOptionalDeps
  dsimp only
  rw [List.find?_congr h]
  rfl

/-- Another table, and visits made with it, that a visit to a rule cannot tell from its own. -/
structure Alike (g : UnitGraph) (flags : List String) (requested : Requests) (table : RuleTable)
    (visit visit' : Visit) (rule : Rule) (platform : Platform) (labels : List String) : Prop where
  optional : ∀ d ∈ rule.common.optionalDeps, (table.get? d).isNone = (g.table.get? d).isNone
  get?_eq : ∀ edge, g.Needs rule platform labels
    ((g.setting flags requested).features rule.common platform) edge →
      table.get? edge.name = g.table.get? edge.name
  visit_eq : ∀ edge next, g.Needs rule platform labels
    ((g.setting flags requested).features rule.common platform) edge →
      g.table.get? edge.name = some next → ∀ walk,
        visit next (g.place edge next).platform walk = visit' next (g.place edge next).platform walk

/-- What a visit to a rule comes to depends on what the table has for the names that the rule needs,
and on the visits to these. -/
theorem visitDependencies_congr {table : RuleTable} {visit visit' : Visit} {rule : Rule}
    {platform : Platform} {walk : Walk}
    (h : ∀ labels, rule.common.select platform = some (.compatible labels) →
      Alike g flags requested table visit visit' rule platform labels) :
    visitDependencies (g.setting flags requested) visit rule platform walk =
      visitDependencies ((g.withTable table).setting flags requested) visit' rule platform walk := by
  unfold visitDependencies
  cases hselect : rule.common.select platform with
  | none => simp only [hselect]
  | some selection =>
    cases selection with
    | incompatible => simp only [hselect]
    | compatible labels =>
      simp only [hselect]
      have halike := h labels hselect
      have hedges : ((g.withTable table).setting flags requested).edges rule platform labels
          (((g.withTable table).setting flags requested).features rule.common platform) =
            (g.setting flags requested).edges rule platform labels
              ((g.setting flags requested).features rule.common platform) :=
        Setting.edges_congr (s := g.setting flags requested) halike.optional
      rw [hedges]
      apply Setting.edges_meets.bind_congr
      rintro edges ⟨-, rfl⟩
      -- all that a step of the loop reads of the table is the rule at the end of the edge
      have hstep : ∀ state, ∀ edge ∈ (g.setting flags requested).openEdges rule platform labels
            ((g.setting flags requested).features rule.common platform),
          followEdge (g.setting flags requested) visit rule.common platform
              ((g.setting flags requested).features rule.common platform) state edge =
            followEdge ((g.withTable table).setting flags requested) visit' rule.common platform
              ((g.setting flags requested).features rule.common platform) state edge := by
        rintro ⟨gathered, before⟩ edge hedge
        have hneeds := mem_openEdges_iff.1 hedge
        have hlookup : ((g.withTable table).setting flags requested).lookup rule.common edge.name =
            (g.setting flags requested).lookup rule.common edge.name :=
          Setting.lookup_congr (s := g.setting flags requested) (halike.get?_eq edge hneeds)
        unfold followEdge
        rw [hlookup]
        apply Setting.lookup_meets.bind_congr
        intro next hnext
        exact congrArg (· >>= _) (halike.visit_eq edge next hneeds hnext _)
      rw [foldlM_congr hstep]
      rfl

theorem visitFrom_congr {table : RuleTable} {below below' : List UnitKey → Visit}
    {path : List UnitKey} {rule : Rule} {platform : Platform} {walk : Walk}
    (h : ⟨rule.name, platform⟩ ∉ path → ∀ labels,
      rule.common.select platform = some (.compatible labels) →
      Alike g flags requested table (below (⟨rule.name, platform⟩ :: path))
        (below' (⟨rule.name, platform⟩ :: path)) rule platform labels) :
    visitFrom (g.setting flags requested) below path rule platform walk =
      visitFrom ((g.withTable table).setting flags requested) below' path rule platform walk := by
  unfold visitFrom
  dsimp only
  split
  · rfl
  · split
    · rfl
    · next hfresh => rw [visitDependencies_congr (h hfresh)]

/-- At depths that suffice a walk is the same whatever the depth, and its path can be watched: it
never holds a unit twice. -/
theorem visitOn_eq_visit {depth depth' : Nat} {path : List UnitKey} {rule : Rule}
    {platform : Platform} {walk : Walk} (hpath : isDirect g path)
    (hkey : ⟨rule.name, platform⟩ ∈ g.units) (hdepth : g.units.card < depth + path.length)
    (hdepth' : g.units.card < depth' + path.length) :
    visitOn (g.setting flags requested) (isDirect g) depth path rule platform walk =
      visit (g.setting flags requested) depth' path rule platform walk := by
  have hlength := length_le_card_units hpath
  -- the path grows by what the depths lose, so depths that suffice go on sufficing
  induction depth generalizing depth' path rule platform walk with
  | zero => omega
  | succ depth ih =>
    cases depth' with
    | zero => omega
    | succ depth' =>
      rw [visitOn, if_pos hpath, visit]
      apply visitFrom_congr
      intro hfresh labels _
      refine ⟨fun _ _ => rfl, fun _ _ => rfl, fun edge next hneeds hnext walk => ?_⟩
      have hpath' := isDirect_cons hpath hkey hfresh
      have hname : next.name = edge.name := RuleTable.name_of_get? hnext
      have hnext' : ⟨next.name, (g.place edge next).platform⟩ ∈ g.units := by
        rw [hname]
        exact UnitGraph.mem_units_of_mem_names (hneeds.place_mem_unitsNamed hkey hnext)
      refine ih hpath' hnext' ?_ ?_ (length_le_card_units hpath') <;> simp only [List.length_cons] <;>
        omega

/-- Visits to what a rule needs that never want for depth. -/
theorem visitDependencies_not_exhausted {visit : Visit} {rule : Rule} {platform : Platform}
    {walk : Walk}
    (h : ∀ labels features edge next, g.Needs rule platform labels features edge →
      g.table.get? edge.name = some next → ∀ walk,
        Meets (visit next (g.place edge next).platform walk) (fun _ => True) (· ≠ .exhausted)) :
    Meets (visitDependencies (g.setting flags requested) visit rule platform walk) (fun _ => True)
      (· ≠ .exhausted) := by
  unfold visitDependencies
  cases hselect : rule.common.select platform with
  | none => simp [hselect]
  | some selection =>
    cases selection with
    | incompatible => simp [hselect]
    | compatible labels =>
      simp only [hselect]
      refine Meets.bind (Setting.edges_meets.mono (fun _ h => h) ?_) ?_
      · rintro stop ⟨_, _, _, rfl⟩
        simp
      · rintro edges ⟨-, rfl⟩
        refine (Meets.foldlM (fun _ _ => True) trivial ?_).bind fun _ _ => trivial
        rintro past edge rest ⟨gathered, before⟩ hsplit -
        unfold followEdge
        refine Meets.bind (Setting.lookup_meets.mono (fun _ h => h) ?_) fun next hnext => ?_
        · rintro stop ⟨_, rfl⟩
          simp
        · have hedge : edge ∈ (g.setting flags requested).openEdges rule platform labels
              ((g.setting flags requested).features rule.common platform) := by
            rw [hsplit]
            exact List.mem_append_right _ List.mem_cons_self
          exact (h labels _ edge next (mem_openEdges_iff.1 hedge) hnext _).bind fun _ _ => trivial

/-- A depth of one more than the units that are not on the path suffices. -/
theorem visit_not_exhausted {depth : Nat} {path : List UnitKey} {rule : Rule}
    {platform : Platform} {walk : Walk} (hpath : isDirect g path)
    (hkey : ⟨rule.name, platform⟩ ∈ g.units) (hdepth : g.units.card < depth + path.length) :
    Meets (visit (g.setting flags requested) depth path rule platform walk) (fun _ => True)
      (· ≠ .exhausted) := by
  have hlength := length_le_card_units hpath
  induction depth generalizing path rule platform walk with
  | zero => omega
  | succ depth ih =>
    rw [visit, visitFrom]
    cases hdone : walk.done.get? ⟨rule.name, platform⟩ with
    | some outcome => trivial
    | none =>
      dsimp only
      split
      · simp
      · next hfresh =>
        have hpath' := isDirect_cons hpath hkey hfresh
        refine (visitDependencies_not_exhausted fun labels features edge next hneeds hnext walk =>
          ?_).bind fun _ _ => trivial
        have hname : next.name = edge.name := RuleTable.name_of_get? hnext
        have hnext' : ⟨next.name, (g.place edge next).platform⟩ ∈ g.units := by
          rw [hname]
          exact UnitGraph.mem_units_of_mem_names (hneeds.place_mem_unitsNamed hkey hnext)
        refine ih hpath' hnext' ?_ (length_le_card_units hpath')
        simp only [List.length_cons]
        omega

end

end Walk

end BuildRules
