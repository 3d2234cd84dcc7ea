import BuildRules.Configuration.Manifest
import BuildRules.Proofs.Rule.Constraint
import BuildRules.Proofs.Rule.Insertion

/-!
# The table of a manifest

The check of a manifest and the making of its table are two checks of one thing. What the first has
passed the second finds no fault with; sources, conditions, and names that are listed or stand twice
are left to the second. Main statement: `toTable_exact`.
-/

namespace BuildRules

/-! ## What the check of a manifest establishes -/

namespace Declaration

/-- What a declaration must satisfy to be accepted. -/
structure IsValid (d : Declaration) : Prop where
  named : d.name ≠ ""
  edition : d.edition ∈ editions
  aliases : ∀ dependency ∈ d.aliases.keys, dependency ∈ d.declaredDeps
  conditions : ∀ conditions, d.compatibleWith = some conditions →
    ∀ condition ∈ conditions.keys, Text.allBlank condition = false

theorem validate_eq_ok_iff {sectionName : String} {d : Declaration} :
    d.validate sectionName = .ok () ↔ d.IsValid := by
  have haliases : d.aliases.keys.find? (· ∉ d.declaredDeps) = none ↔
      ∀ dependency ∈ d.aliases.keys, dependency ∈ d.declaredDeps := by
    simp [List.find?_eq_none]
  have hconditions : (d.compatibleWith.any fun conditions => conditions.keys.any Text.allBlank) =
      false ↔ ∀ conditions, d.compatibleWith = some conditions →
        ∀ condition ∈ conditions.keys, Text.allBlank condition = false := by
    cases d.compatibleWith <;> simp
  unfold validate
  constructor
  · intro h
    split at h; · cases h
    split at h; · cases h
    split at h; · cases h
    split at h; · cases h
    next named edition _ aliases conditions =>
    exact ⟨named, Classical.not_not.1 edition, haliases.1 aliases,
      hconditions.1 (Bool.eq_false_iff.2 conditions)⟩
  · rintro ⟨named, edition, aliases, conditions⟩
    rw [if_neg named, if_neg (not_not_intro edition), haliases.2 aliases,
      hconditions.2 conditions]
    rfl

end Declaration

/-- No target of a manifest must have a crate root. -/
theorem CrateKind.requiresCrateRoot_targetKind (kind : CrateKind) :
    kind.targetKind.requiresCrateRoot = false := by
  cases kind <;> rfl

theorem ScriptDecl.validate_eq_ok_iff {d : ScriptDecl} :
    d.validate = .ok () ↔ d.IsValid ∧ d.crateRoot ≠ none ∧ d.links ≠ some "" := by
  unfold validate
  rw [bind_eq_ok_iff]
  constructor
  · rintro ⟨_, hdeclared, h⟩
    split at h; · cases h
    split at h; · cases h
    next root links => exact ⟨Declaration.validate_eq_ok_iff.1 hdeclared, root, links⟩
  · rintro ⟨hdeclared, root, links⟩
    exact ⟨(), Declaration.validate_eq_ok_iff.2 hdeclared, by simp [root, links]⟩

namespace Manifest

/-- What a manifest must satisfy to be accepted. -/
structure IsValid (m : Manifest) : Prop where
  settings : m.settings.IsValid
  targets : ∀ d ∈ m.targets, d.IsValid
  scripts : ∀ d ∈ m.scripts, d.IsValid ∧ d.crateRoot ≠ none ∧ d.links ≠ some ""

theorem validate_eq_ok_iff {m : Manifest} : m.validate = .ok () ↔ m.IsValid := by
  have htargets : m.targets.forM TargetDecl.validate = .ok () ↔ ∀ d ∈ m.targets, d.IsValid :=
    forM_eq_ok_iff.trans (forall₂_congr fun _ _ => Declaration.validate_eq_ok_iff)
  have hscripts : m.scripts.forM ScriptDecl.validate = .ok () ↔
      ∀ d ∈ m.scripts, d.IsValid ∧ d.crateRoot ≠ none ∧ d.links ≠ some "" :=
    forM_eq_ok_iff.trans (forall₂_congr fun _ _ => ScriptDecl.validate_eq_ok_iff)
  unfold validate
  rw [bind_eq_ok_iff]
  constructor
  · rintro ⟨_, hsettings, h⟩
    obtain ⟨_, h, h'⟩ := bind_eq_ok_iff.1 h
    exact ⟨Settings.validate_eq_ok_iff.1 hsettings, htargets.1 h, hscripts.1 h'⟩
  · rintro ⟨hsettings, h, h'⟩
    exact ⟨(), Settings.validate_eq_ok_iff.2 hsettings,
      bind_eq_ok_iff.2 ⟨(), htargets.2 h, hscripts.2 h'⟩⟩

end Manifest

/-! ## What is left for the table -/

namespace Declaration

/-- The declaration lists a name among its dependencies or under its conditions, where the
incompatible label is no dependency. -/
def Lists (d : Declaration) (name : String) : Prop :=
  name ∈ d.deps ∨ name ∈ d.procMacroDeps ∨ name ∈ d.optionalDeps ∨
    ∃ conditions condition labels, d.compatibleWith = some conditions ∧
      conditions.get? condition = some labels ∧ name ∈ labels ∧ name ≠ incompatibleLabel

/-- A rule can be made of the declaration. -/
structure IsSound (d : Declaration) : Prop where
  sources : d.srcs ≠ []
  noSelf : ¬ d.Lists d.name
  conditions : ∀ conditions, d.compatibleWith = some conditions →
    Conditions.NamePlatforms conditions.keys

/-- What an error says about the declaration that it is found in. Of the faults of a target only
missing sources can be found in one. -/
def Faults (d : Declaration) : RuleError → Prop
  | .invalidTarget name fault => name = d.name ∧ fault = .noSources ∧ d.srcs = []
  | .cycle path => path = [d.name, d.name] ∧ d.Lists d.name
  | e => ∃ conditions, d.compatibleWith = some conditions ∧ Conditions.Faults conditions.keys e

theorem IsSound.not_faults {d : Declaration} (h : d.IsSound) (e : RuleError) : ¬ d.Faults e := by
  intro hfaults
  cases e with
  | invalidTarget name fault => exact h.sources hfaults.2.2
  | cycle path => exact h.noSelf hfaults.2
  | _ =>
    obtain ⟨conditions, hconditions, hfaults⟩ := hfaults
    exact (h.conditions conditions hconditions).not_faults _ hfaults

theorem faults_of_conditions {d : Declaration} {conditions : Conditions} {e : RuleError}
    (hconditions : d.compatibleWith = some conditions)
    (h : Conditions.Faults conditions.keys e) : d.Faults e := by
  cases e with
  | duplicateCondition name => exact ⟨conditions, hconditions, h⟩
  | invalidPlatform id => exact ⟨conditions, hconditions, h⟩
  | _ => exact h.elim

/-! ### Targets of declarations -/

/-- What the target of a declaration has of it. -/
structure Becomes (d : Declaration) (kind : TargetKind) (t : Target) : Prop where
  name : t.name = d.name
  kind : t.kind = kind
  srcs : t.srcs = d.srcs
  crateRoot : t.crateRoot = d.crateRoot
  edition : t.edition = d.edition
  aliases : t.aliases = d.aliases
  declaredDeps : t.declaredDeps = d.declaredDeps
  conditions : ∀ conditions, d.compatibleWith = some conditions →
    Conditions.NamePlatforms conditions.keys
  lists : ∀ name, t.Lists name ↔ d.Lists name

theorem toTarget_meets {d : Declaration} {kind : TargetKind} :
    Meets (d.toTarget kind) (d.Becomes kind) d.Faults := by
  unfold toTarget
  cases hconditions : d.compatibleWith with
  | none =>
    refine ⟨rfl, rfl, rfl, rfl, rfl, rfl, rfl, ?_, fun name => ?_⟩
    · rw [hconditions]
      nofun
    · simp [Target.Lists, Lists, hconditions]
  | some conditions =>
    dsimp only
    have hmap : Meets (ConstraintMap.ofConditions conditions)
        (fun map => map.Holds conditions.toList) (Conditions.Faults conditions.keys) :=
      ConstraintMap.ofConditions_meets
    cases hmade : ConstraintMap.ofConditions conditions with
    | error e =>
      rw [hmade] at hmap
      exact faults_of_conditions hconditions hmap
    | ok map =>
      rw [hmade] at hmap
      have hholds : map.Holds conditions.toList := hmap
      refine ⟨rfl, rfl, rfl, rfl, rfl, rfl, rfl, ?_, fun name => ?_⟩
      · rw [hconditions]
        rintro _ ⟨⟩
        exact hholds.names
      · have hlisted : (∃ labels, map.Offers labels ∧ name ∈ labels ∧ name ≠ incompatibleLabel) ↔
            ∃ condition labels, conditions.get? condition = some labels ∧ name ∈ labels ∧
              name ≠ incompatibleLabel := by
          simp only [hholds.offers_iff, SortedMap.mem_toList_iff]
          constructor
          · rintro ⟨labels, ⟨condition, hget⟩, hname⟩
            exact ⟨condition, labels, hget, hname⟩
          · rintro ⟨condition, labels, hget, hname⟩
            exact ⟨labels, ⟨condition, hget⟩, hname⟩
        simp only [Target.Lists, Lists, hconditions, Option.some.injEq, exists_and_left,
          exists_eq_left', hlisted]

/-! ### Rules of declarations -/

/-- What is wrong with a rule of a declaration is wrong with the declaration. -/
structure Makes (d : Declaration) (rule : Rule) : Prop where
  name : rule.name = d.name
  sound : rule.common.IsValid → d.IsSound
  faults : ∀ e, rule.common.Faults e → d.Faults e

theorem Becomes.makes {d : Declaration} {kind : TargetKind} {rule : Rule} (hvalid : d.IsValid)
    (hroot : kind.requiresCrateRoot → d.crateRoot ≠ none) (h : d.Becomes kind rule.common) :
    d.Makes rule where
  name := h.name
  sound hsound := by
    refine ⟨h.srcs ▸ hsound.sources, fun hself => hsound.noSelf ?_, h.conditions⟩
    rw [Target.mem_dependencyNames_iff, h.lists, h.name]
    exact hself
  faults e hfaults := by
    cases e with
    | cycle path =>
      obtain ⟨hpath, hself⟩ := hfaults
      rw [h.name] at hpath hself
      exact ⟨hpath, (h.lists _).1 hself⟩
    | invalidTarget name fault =>
      obtain ⟨hname, hfault⟩ := hfaults
      rw [h.name, if_neg hvalid.named] at hname
      -- but for missing sources, the check of the manifest has ruled out every fault
      cases fault with
      | unnamed => exact absurd (h.name.symm.trans hfault) hvalid.named
      | noSources => exact ⟨hname, rfl, h.srcs ▸ hfault⟩
      | noCrateRoot =>
        obtain ⟨hkind, hmissing⟩ := hfault
        rw [h.kind] at hkind
        exact absurd (h.crateRoot.symm.trans hmissing) (hroot hkind)
      | badEdition edition =>
        obtain ⟨rfl, hbad⟩ := hfault
        exact absurd (h.edition ▸ hvalid.edition) hbad
      | strayAlias dependency =>
        obtain ⟨halias, hstray⟩ := hfault
        rw [h.aliases] at halias
        rw [h.declaredDeps] at hstray
        exact absurd (hvalid.aliases dependency halias) hstray
    | _ => exact hfaults.elim

end Declaration

/-! ## Tables -/

/-- The table holds the rules that the declarations make, and no others. -/
structure RuleTable.Collects (table : RuleTable)
    (items : List (Declaration × Except RuleError Rule)) : Prop where
  sound : ∀ item ∈ items, item.1.IsSound
  distinct : (items.map fun item => item.1.name).Nodup
  made : ∀ item ∈ items, ∃ rule, item.2 = .ok rule
  get?_iff : ∀ name rule, table.get? name = some rule ↔
    ∃ item ∈ items, item.1.name = name ∧ item.2 = .ok rule

namespace RuleTable

variable {table table' : RuleTable} {items items' : List (Declaration × Except RuleError Rule)}

theorem Collects.exists_rule {item : Declaration × Except RuleError Rule}
    (h : table.Collects items) (hitem : item ∈ items) :
    ∃ rule, item.2 = .ok rule ∧ table.get? item.1.name = some rule := by
  obtain ⟨rule, hmade⟩ := h.made item hitem
  exact ⟨rule, hmade, (h.get?_iff _ rule).2 ⟨item, hitem, rfl, hmade⟩⟩

theorem collects_empty : empty.Collects [] where
  sound := by simp
  distinct := List.nodup_nil
  made := by simp
  get?_iff := by simp [empty, get?]

/-- One more rule that is valid and has a name of its own is one more rule collected. -/
theorem Collects.insert {d : Declaration} {rule : Rule} (h : table.Collects items)
    (hmakes : d.Makes rule) (hvalid : rule.common.IsValid) (hnew : table.get? rule.name = none)
    (hget : ∀ name, table'.get? name = if name = rule.name then some rule else table.get? name) :
    table'.Collects (items ++ [(d, .ok rule)]) where
  sound := by
    simp only [List.forall_mem_append, List.forall_mem_singleton]
    exact ⟨h.sound, hmakes.sound hvalid⟩
  distinct := by
    rw [List.map_append, List.nodup_append]
    refine ⟨h.distinct, List.nodup_singleton _, ?_⟩
    intro name hname name' hname' heq
    obtain ⟨item, hitem, rfl⟩ := List.mem_map.1 hname
    obtain rfl := List.mem_singleton.1 hname'
    obtain ⟨rule', -, hget'⟩ := h.exists_rule hitem
    have hsame : item.1.name = rule.name := heq.trans hmakes.name.symm
    rw [hsame, hnew] at hget'
    cases hget'
  made := by
    simp only [List.forall_mem_append, List.forall_mem_singleton]
    exact ⟨h.made, rule, rfl⟩
  get?_iff name rule' := by
    have hlast : (∃ item ∈ [((d, .ok rule) : Declaration × Except RuleError Rule)],
        item.1.name = name ∧ item.2 = .ok rule') ↔ name = rule.name ∧ rule = rule' := by
      simp [hmakes.name, eq_comm]
    rw [hget]
    simp only [List.mem_append, or_and_right, exists_or, hlast, ← h.get?_iff]
    split
    · next hname => simp [hname, hnew]
    · next hname => simp [hname]

theorem Collects.perm (h : table.Collects items) (hperm : items'.Perm items) :
    table.Collects items' where
  sound item hitem := h.sound item (hperm.subset hitem)
  distinct := (hperm.map _).nodup_iff.2 h.distinct
  made item hitem := h.made item (hperm.subset hitem)
  get?_iff name rule := by
    simp only [h.get?_iff, hperm.mem_iff]

theorem Collects.unique (h : table.Collects items) (h' : table'.Collects items) :
    table = table' := by
  obtain ⟨rules, sound⟩ := table
  obtain ⟨rules', sound'⟩ := table'
  have hrules : rules = rules' := SortedMap.ext_get? fun name =>
    Option.ext fun rule => (h.get?_iff name rule).trans (h'.get?_iff name rule).symm
  subst hrules
  rfl

theorem Collects.size_eq (h : table.Collects items) : table.size = items.length := by
  have hnames : table.names.Perm (items.map fun item => item.1.name) := by
    refine (List.perm_ext_iff_of_nodup table.rules.nodup_keys h.distinct).2 fun name => ?_
    rw [← names, mem_names_iff, Option.ne_none_iff_exists', List.mem_map]
    constructor
    · rintro ⟨rule, hrule⟩
      obtain ⟨item, hitem, hname, -⟩ := (h.get?_iff name rule).1 hrule
      exact ⟨item, hitem, hname⟩
    · rintro ⟨item, hitem, rfl⟩
      obtain ⟨rule, -, hget⟩ := h.exists_rule hitem
      exact ⟨rule, hget⟩
  rw [← length_names, hnames.length_eq, List.length_map]

end RuleTable

namespace Manifest

/-- All declarations of a manifest. -/
def declarations (m : Manifest) : List Declaration :=
  m.targets.map TargetDecl.toDeclaration ++ m.scripts.map ScriptDecl.toDeclaration

/-- The declarations with the rules that they make. -/
def items (m : Manifest) : List (Declaration × Except RuleError Rule) :=
  m.targets.map (fun d => (d.toDeclaration, d.toRule)) ++
    m.scripts.map fun d => (d.toDeclaration, d.toRule)

/-- Every declaration can be made a rule, and has a name of its own. -/
structure IsTabular (m : Manifest) : Prop where
  sound : ∀ d ∈ m.declarations, d.IsSound
  distinct : (m.declarations.map Declaration.name).Nodup

/-- What an error says about the manifest that it is found in. -/
def Faults (m : Manifest) : RuleError → Prop
  | .duplicateTarget name => 2 ≤ (m.declarations.map Declaration.name).count name
  | e => ∃ d ∈ m.declarations, d.Faults e

variable {m m' : Manifest} {table : RuleTable}

theorem map_fst_items : m.items.map Prod.fst = m.declarations := by
  rw [items, List.map_append, List.map_map, List.map_map]
  rfl

theorem map_name_declarations :
    m.declarations.map Declaration.name = m.items.map fun item => item.1.name := by
  rw [← map_fst_items, List.map_map]
  rfl

theorem toTable_eq : m.toTable =
    m.items.foldlM (fun table item => table.insertMade item.2) .empty := by
  have hmade : m.targets.map TargetDecl.toRule ++ m.scripts.map ScriptDecl.toRule =
      m.items.map Prod.snd := by
    rw [items, List.map_append, List.map_map, List.map_map]
    rfl
  rw [toTable, hmade, List.foldlM_map]

theorem faults_of_mem {d : Declaration} {e : RuleError} (hd : d ∈ m.declarations)
    (h : d.Faults e) : m.Faults e := by
  cases e with
  | duplicateTarget name =>
    obtain ⟨conditions, -, hfaults⟩ := h
    exact hfaults.elim
  | _ => exact ⟨d, hd, h⟩

theorem IsTabular.not_faults (h : m.IsTabular) (e : RuleError) : ¬ m.Faults e := by
  intro hfaults
  cases e with
  | duplicateTarget name =>
    have honce := List.nodup_iff_count_le_one.1 h.distinct name
    have htwice : 2 ≤ (m.declarations.map Declaration.name).count name := hfaults
    omega
  | _ =>
    obtain ⟨d, hd, hfaults⟩ := hfaults
    exact (h.sound d hd).not_faults _ hfaults

theorem isTabular_of_collects (h : table.Collects m.items) : m.IsTabular where
  sound d hd := by
    rw [← map_fst_items] at hd
    obtain ⟨item, hitem, rfl⟩ := List.mem_map.1 hd
    exact h.sound item hitem
  distinct := map_name_declarations ▸ h.distinct

/-- Every declaration makes a rule as sound as itself, or has a fault. -/
def MakesRules (m : Manifest) : Prop := ∀ item ∈ m.items, Meets item.2 item.1.Makes item.1.Faults

theorem IsValid.makesRules (h : m.IsValid) : m.MakesRules := by
  intro item hitem
  rcases List.mem_append.1 hitem with hitem | hitem
  · obtain ⟨d, hd, rfl⟩ := List.mem_map.1 hitem
    have htarget : Meets (d.toTarget d.kind.targetKind) (d.Becomes d.kind.targetKind) d.Faults :=
      Declaration.toTarget_meets
    refine htarget.bind fun t ht => ?_
    refine Declaration.Becomes.makes (h.targets d hd) (fun hkind => ?_) ht
    rw [CrateKind.requiresCrateRoot_targetKind] at hkind
    cases hkind
  · obtain ⟨d, hd, rfl⟩ := List.mem_map.1 hitem
    obtain ⟨hvalid, hroot, -⟩ := h.scripts d hd
    have htarget : Meets (d.toTarget .buildScript) (d.Becomes .buildScript) d.Faults :=
      Declaration.toTarget_meets
    refine htarget.bind fun t ht => ?_
    exact Declaration.Becomes.makes hvalid (fun _ => hroot) ht

/-- A name that has been declared before is declared twice. -/
theorem faults_of_earlier {past rest : List (Declaration × Except RuleError Rule)}
    {item earlier : Declaration × Except RuleError Rule}
    (hsplit : m.items = past ++ item :: rest) (hearlier : earlier ∈ past)
    (hname : earlier.1.name = item.1.name) : m.Faults (.duplicateTarget item.1.name) := by
  have hpast : 0 < (past.map fun item => item.1.name).count item.1.name :=
    List.count_pos_iff.2 (hname ▸ List.mem_map_of_mem hearlier)
  have hcount : (m.declarations.map Declaration.name).count item.1.name =
      (past.map fun item => item.1.name).count item.1.name +
        ((rest.map fun item => item.1.name).count item.1.name + 1) := by
    rw [map_name_declarations, hsplit, List.map_append, List.map_cons, List.count_append,
      List.count_cons_self]
  show 2 ≤ (m.declarations.map Declaration.name).count item.1.name
  omega

/-- Rules are collected one by one, until one of them has a fault. -/
theorem MakesRules.toTable_meets (h : m.MakesRules) :
    Meets m.toTable (fun table => table.Collects m.items) m.Faults := by
  rw [toTable_eq]
  refine Meets.foldlM (fun past table => RuleTable.Collects table past)
    RuleTable.collects_empty ?_
  rintro past ⟨d, made⟩ rest table hsplit hpast
  have hitem : (d, made) ∈ m.items := by simp [hsplit]
  have hd : d ∈ m.declarations := map_fst_items ▸ List.mem_map_of_mem hitem
  cases made with
  | error e => exact faults_of_mem hd (h _ hitem)
  | ok rule =>
    have hmakes : d.Makes rule := h _ hitem
    refine RuleTable.insert_meets.mono (fun table' hinsert => ?_) fun e he => ?_
    · obtain ⟨hvalid, hnew, hget⟩ := hinsert
      exact hpast.insert hmakes hvalid hnew hget
    · rcases he with he | ⟨rfl, hold⟩
      · exact faults_of_mem hd (hmakes.faults e he)
      · obtain ⟨rule', hget⟩ := Option.ne_none_iff_exists'.1 hold
        obtain ⟨earlier, hearlier, hname, -⟩ := (hpast.get?_iff _ rule').1 hget
        rw [hmakes.name] at hname ⊢
        exact faults_of_earlier hsplit hearlier hname

/-- The table of a manifest. -/
structure Tabulates (m : Manifest) (table : RuleTable) : Prop where
  size : table.size = m.size
  named : ∀ name rule, table.get? name = some rule → rule.name = name
  targets : ∀ d ∈ m.targets, ∃ t, table.get? d.name = some (.target t) ∧
    d.toRule = .ok (.target t) ∧ d.Becomes d.kind.targetKind t
  scripts : ∀ d ∈ m.scripts, ∃ s, table.get? d.name = some (.script s) ∧
    d.toRule = .ok (.script s) ∧ d.Becomes .buildScript s.target
  /-- What declares a build script makes a build script, and nothing else does. -/
  isScript_iff : ∀ name rule, table.get? name = some rule →
    (rule.isScript ↔ ∃ d ∈ m.scripts, d.name = name)
  /-- In whichever order the declarations stand, the table is this one. -/
  order : ∀ m' : Manifest, m'.targets.Perm m.targets → m'.scripts.Perm m.scripts →
    m'.toTable = .ok table

theorem MakesRules.toTable_of_perm (h : m.MakesRules) (hcollects : table.Collects m.items)
    (htargets : m'.targets.Perm m.targets) (hscripts : m'.scripts.Perm m.scripts) :
    m'.toTable = .ok table := by
  have hperm : m'.items.Perm m.items := (htargets.map _).append (hscripts.map _)
  have hcollects' := hcollects.perm hperm
  have hmakes : m'.MakesRules := fun item hitem => h item (hperm.subset hitem)
  have hmeets := hmakes.toTable_meets
  cases htable : m'.toTable with
  | error e =>
    rw [htable] at hmeets
    exact absurd hmeets ((isTabular_of_collects hcollects').not_faults e)
  | ok table' =>
    rw [htable] at hmeets
    rw [RuleTable.Collects.unique hmeets hcollects']

theorem exists_target_of_toRule {d : TargetDecl} {rule : Rule} (h : d.toRule = .ok rule) :
    ∃ t, rule = .target t ∧ d.Becomes d.kind.targetKind t := by
  obtain ⟨t, hmade, ht⟩ := bind_eq_ok_iff.1 h
  have hmeets : Meets (d.toTarget d.kind.targetKind) (d.Becomes d.kind.targetKind) d.Faults :=
    Declaration.toTarget_meets
  rw [hmade] at hmeets
  cases ht
  exact ⟨t, rfl, hmeets⟩

theorem exists_script_of_toRule {d : ScriptDecl} {rule : Rule} (h : d.toRule = .ok rule) :
    ∃ s, rule = .script s ∧ d.Becomes .buildScript s.target := by
  obtain ⟨t, hmade, ht⟩ := bind_eq_ok_iff.1 h
  have hmeets : Meets (d.toTarget .buildScript) (d.Becomes .buildScript) d.Faults :=
    Declaration.toTarget_meets
  rw [hmade] at hmeets
  cases ht
  exact ⟨_, rfl, hmeets⟩

theorem MakesRules.tabulates (h : m.MakesRules) (hcollects : table.Collects m.items) :
    m.Tabulates table := by
  have htargets : ∀ d ∈ m.targets, ∃ t, table.get? d.name = some (.target t) ∧
      d.toRule = .ok (.target t) ∧ d.Becomes d.kind.targetKind t := by
    intro d hd
    obtain ⟨rule, hmade, hget⟩ :=
      hcollects.exists_rule (List.mem_append_left _ (List.mem_map_of_mem hd))
    obtain ⟨t, rfl, ht⟩ := exists_target_of_toRule hmade
    exact ⟨t, hget, hmade, ht⟩
  have hscripts : ∀ d ∈ m.scripts, ∃ s, table.get? d.name = some (.script s) ∧
      d.toRule = .ok (.script s) ∧ d.Becomes .buildScript s.target := by
    intro d hd
    obtain ⟨rule, hmade, hget⟩ :=
      hcollects.exists_rule (List.mem_append_right _ (List.mem_map_of_mem hd))
    obtain ⟨s, rfl, hs⟩ := exists_script_of_toRule hmade
    exact ⟨s, hget, hmade, hs⟩
  refine ⟨?_, fun _ _ => RuleTable.name_of_get?, htargets, hscripts, ?_, ?_⟩
  · rw [hcollects.size_eq, items, size, List.length_append, List.length_map, List.length_map]
  · intro name rule hget
    constructor
    · intro hscript
      obtain ⟨item, hitem, hname, hmade⟩ := (hcollects.get?_iff name rule).1 hget
      rcases List.mem_append.1 hitem with hitem | hitem
      · obtain ⟨d, -, rfl⟩ := List.mem_map.1 hitem
        obtain ⟨t, rfl, -⟩ := exists_target_of_toRule hmade
        cases hscript
      · obtain ⟨d, hd, rfl⟩ := List.mem_map.1 hitem
        exact ⟨d, hd, hname⟩
    · rintro ⟨d, hd, rfl⟩
      obtain ⟨s, hs, -⟩ := hscripts d hd
      obtain rfl := Option.some.inj (hget.symm.trans hs)
      rfl
  · exact fun m' htargets hscripts => h.toTable_of_perm hcollects htargets hscripts

/-- The check of a manifest and the making of its table agree: a manifest that has passed the check
declares a table exactly if every declaration has sources, does not list itself and has conditions
that name platforms, each its own, and no name is declared twice. The table is then that of the
declarations, and otherwise the error is true of them. -/
theorem toTable_exact {m : Manifest} (h : m.validate = .ok ()) :
    ((∃ table, m.toTable = .ok table) ↔ m.IsTabular) ∧
      (∀ table, m.toTable = .ok table → m.Tabulates table) ∧
      ∀ e, m.toTable = .error e → m.Faults e ∧
        ∀ name fault, e = .invalidTarget name fault → fault = .noSources := by
  have hmakes := (validate_eq_ok_iff.1 h).makesRules
  have hmeets := hmakes.toTable_meets
  refine ⟨⟨?_, ?_⟩, ?_, ?_⟩
  · rintro ⟨table, htable⟩
    rw [htable] at hmeets
    exact isTabular_of_collects hmeets
  · intro htabular
    cases htable : m.toTable with
    | ok table => exact ⟨table, rfl⟩
    | error e =>
      rw [htable] at hmeets
      exact absurd hmeets (htabular.not_faults e)
  · intro table htable
    rw [htable] at hmeets
    exact hmakes.tabulates hmeets
  · intro e he
    rw [he] at hmeets
    refine ⟨hmeets, ?_⟩
    rintro name fault rfl
    obtain ⟨d, -, -, hfault, -⟩ := hmeets
    exact hfault

/-- A manifest with a library for one platform and the build script that it depends on. -/
def linking : Manifest where
  targets :=
    [ { name := "zlib"
        srcs := ["src/**/*.rs"]
        deps := ["zlib-build"]
        compatibleWith := some <| .ofList
          [ ("@rules_rust//rust/platform:x86_64-unknown-linux-gnu", ["alloc"]),
            (defaultCondition, [incompatibleLabel]) ] },
      { name := "alloc", srcs := ["src/**/*.rs"] } ]
  scripts :=
    [ { name := "zlib-build", srcs := ["build.rs"], crateRoot := some "build.rs",
        links := some "z" } ]

theorem toTable_exact_linking :
    linking.validate = .ok () ∧ linking.toTable.map RuleTable.size = .ok 3 ∧
      ((∃ table, linking.toTable = .ok table) ↔ linking.IsTabular) ∧
      (∀ table, linking.toTable = .ok table → linking.Tabulates table) ∧
      ∀ e, linking.toTable = .error e → linking.Faults e ∧
        ∀ name fault, e = .invalidTarget name fault → fault = .noSources :=
  ⟨by decide +kernel, by decide +kernel, toTable_exact (by decide +kernel)⟩

end Manifest

end BuildRules
