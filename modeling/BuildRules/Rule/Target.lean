import BuildRules.Rule.Constraint
import BuildRules.Rule.Feature

/-!
# Targets

One thing to build: its kind and sources, its features, and the names it depends on. Main statement:
`validate_eq_ok_iff`, which says what a target must satisfy to be accepted.
-/

namespace BuildRules

/-- Texts under names, such as variables of an environment. -/
abbrev Environment := SortedMap String String

inductive TargetKind
  | library
  | procMacro
  | binary
  | buildScript
  deriving DecidableEq

namespace TargetKind

def name : TargetKind → String
  | library => "library"
  | procMacro => "proc-macro"
  | binary => "binary"
  | buildScript => "build-script"

/-- Whether a target of this kind is run while others are built. -/
def runsOnHost : TargetKind → Bool
  | procMacro | buildScript => true
  | library | binary => false

def requiresCrateRoot : TargetKind → Bool
  | buildScript => true
  | _ => false

end TargetKind

def editions : List String := ["2015", "2018", "2021", "2024"]

def defaultEdition : String := "2015"

structure Target where
  name : String
  kind : TargetKind
  srcs : List String := []
  /-- A path, which is taken to be a text. -/
  crateRoot : Option String := none
  edition : String := defaultEdition
  version : Option String := none
  features : NameSet := ∅
  featureMap : FeatureMap := ∅
  compilerFlags : List String := []
  compilerEnv : Environment := ∅
  tags : NameSet := ∅
  deps : List String := []
  procMacroDeps : List String := []
  /-- Dependencies that take part only when a feature asks for them. -/
  optionalDeps : List String := []
  /-- The names under which dependencies are known inside the target. -/
  aliases : Environment := ∅
  /-- Absent for a target that fits every platform. -/
  constraints : Option ConstraintMap := none
  deriving DecidableEq

namespace Target

/-- A library with the usual place of its sources. -/
def library (name : String) : Target := { name, kind := .library, srcs := ["src/**/*.rs"] }

/-! ## Tags -/

/-- Whether the target is built only when it is asked for by name. -/
def isManual (t : Target) : Bool := "manual" ∈ t.tags

def runsClippy (t : Target) : Bool := "noclippy" ∉ t.tags

def runsRustfmt (t : Target) : Bool := "norustfmt" ∉ t.tags

/-! ## Dependencies -/

/-- The name that a dependency has inside the target. -/
def localName (t : Target) (dependency : String) : String := t.aliases.getD dependency dependency

/-- The dependencies that a target declares as such. -/
def declaredDeps (t : Target) : List String := t.deps ++ t.procMacroDeps ++ t.optionalDeps

/-- Every name the target may depend on, on some platform and with some features. -/
def dependencyNames (t : Target) : List String :=
  t.declaredDeps ++ (t.constraints.map ConstraintMap.allLabels).getD []

/-- What the constraints select; without constraints every platform fits and adds nothing. -/
def select (t : Target) (platform : Platform) : Option Selection :=
  match t.constraints with
  | none => some (.compatible [])
  | some map => map.select platform

theorem select_eq_incompatible_iff {t : Target} {platform : Platform} {viaFallback : Bool} :
    t.select platform = some (.incompatible viaFallback) ↔
      ∃ map labels, t.constraints = some map ∧ map.lookup platform = some (labels, viaFallback) ∧
        incompatibleLabel ∈ labels := by
  unfold select
  cases t.constraints with
  | none => simp
  | some map => simp [ConstraintMap.select_eq_incompatible_iff]

/-- What is depended on, on a platform, is among the names that may be depended on. -/
theorem mem_dependencyNames_of_select {t : Target} {platform : Platform} {labels : List String}
    (h : t.select platform = some (.compatible labels)) {name : String}
    (hname : name ∈ t.declaredDeps ++ labels) : name ∈ t.dependencyNames := by
  unfold dependencyNames
  rcases List.mem_append.1 hname with hname | hname
  · exact List.mem_append_left _ hname
  · refine List.mem_append_right _ ?_
    unfold select at h
    split at h
    · cases h
      cases hname
    · next map hmap =>
      rw [hmap]
      exact ConstraintMap.mem_allLabels_of_select h hname

/-! ## Validity -/

/-- The first alias for a name that is no declared dependency. -/
def strayAlias? (t : Target) : Option String := t.aliases.keys.find? (· ∉ t.declaredDeps)

def validate (t : Target) : Except RuleError Unit :=
  if t.name = "" then .error (.invalidTarget "<unnamed>" .unnamed)
  else if t.srcs = [] then .error (.invalidTarget t.name .noSources)
  else if t.kind.requiresCrateRoot ∧ t.crateRoot = none then
    .error (.invalidTarget t.name .noCrateRoot)
  else if t.edition ∉ editions then .error (.invalidTarget t.name (.badEdition t.edition))
  else
    match t.strayAlias? with
    | some dependency => .error (.invalidTarget t.name (.strayAlias dependency))
    | none => if t.name ∈ t.dependencyNames then .error (.cycle [t.name, t.name]) else .ok ()

/-- What a target must satisfy to be accepted. -/
structure IsValid (t : Target) : Prop where
  named : t.name ≠ ""
  sources : t.srcs ≠ []
  crateRoot : t.kind.requiresCrateRoot → t.crateRoot ≠ none
  edition : t.edition ∈ editions
  aliases : ∀ dependency ∈ t.aliases.keys, dependency ∈ t.declaredDeps
  noSelf : t.name ∉ t.dependencyNames

theorem strayAlias?_eq_none_iff {t : Target} :
    t.strayAlias? = none ↔ ∀ dependency ∈ t.aliases.keys, dependency ∈ t.declaredDeps := by
  simp [strayAlias?, List.find?_eq_none]

theorem validate_eq_ok_iff {t : Target} : t.validate = .ok () ↔ t.IsValid := by
  constructor
  · intro h
    unfold validate at h
    split at h; · simp at h
    split at h; · simp at h
    split at h; · simp at h
    split at h; · simp at h
    split at h; · simp at h
    split at h; · simp at h
    -- every check has been passed
    next named sources root edition _ aliases noSelf =>
    exact ⟨named, sources, fun hk hr => root ⟨hk, hr⟩, Classical.not_not.1 edition,
      strayAlias?_eq_none_iff.1 aliases, noSelf⟩
  · rintro ⟨named, sources, root, edition, aliases, noSelf⟩
    simp [validate, named, sources, edition, strayAlias?_eq_none_iff.2 aliases, noSelf]
    exact root

instance (t : Target) : Decidable t.IsValid :=
  match h : t.validate with
  | .ok () => .isTrue (validate_eq_ok_iff.1 h)
  | .error _ => .isFalse fun valid => by simp [validate_eq_ok_iff.2 valid] at h

end Target

end BuildRules
