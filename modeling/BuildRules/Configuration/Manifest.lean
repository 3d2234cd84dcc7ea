import BuildRules.Configuration.Settings
import BuildRules.Rule.Table

/-!
# Manifests

The declarations of targets and build scripts as a manifest gives them, what a manifest must
satisfy, and the table of rules that it declares.
-/

namespace BuildRules

/-- The kinds of target that a manifest can declare. -/
inductive CrateKind
  | library
  | procMacro
  | binary
  deriving DecidableEq

def CrateKind.targetKind : CrateKind → TargetKind
  | library => .library
  | procMacro => .procMacro
  | binary => .binary

/-- What targets and build scripts declare alike. -/
structure Declaration where
  name : String
  srcs : List String := []
  crateRoot : Option String := none
  edition : String := defaultEdition
  version : Option String := none
  features : List String := []
  featureMap : FeatureMap := ∅
  compilerFlags : List String := []
  compilerEnv : Environment := ∅
  tags : List String := []
  deps : List String := []
  procMacroDeps : List String := []
  optionalDeps : List String := []
  aliases : Environment := ∅
  compatibleWith : Option Conditions := none
  deriving DecidableEq

structure TargetDecl extends Declaration where
  kind : CrateKind := .library
  deriving DecidableEq

structure ScriptDecl extends Declaration where
  scriptEnv : Environment := ∅
  links : Option String := none
  data : List String := []
  tools : List String := []
  deriving DecidableEq

structure Manifest where
  settings : Settings := {}
  targets : List TargetDecl := []
  scripts : List ScriptDecl := []
  deriving DecidableEq

/-! ## Validity -/

namespace Declaration

def declaredDeps (d : Declaration) : List String := d.deps ++ d.procMacroDeps ++ d.optionalDeps

/-- How a declaration is told: its section and its name in quotes. -/
def owner (sectionName : String) (d : Declaration) : String := sectionName ++ " '" ++ d.name ++ "'"

def validate (sectionName : String) (d : Declaration) : Except ConfigError Unit :=
  if d.name = "" then .error (.invalidValue (sectionName ++ ".name") .emptyName)
  else if d.edition ∉ editions then
    .error (.invalidValue (d.owner sectionName ++ ".edition") (.badEdition d.edition))
  else
    match d.aliases.keys.find? (· ∉ d.declaredDeps) with
    | some name => .error (.invalidValue (d.owner sectionName ++ ".aliases") (.notDependency name))
    | none =>
      if d.compatibleWith.any fun conditions => conditions.keys.any Text.allBlank then
        .error (.invalidValue (d.owner sectionName ++ ".compatible_with") .emptyCondition)
      else .ok ()

end Declaration

def TargetDecl.validate (d : TargetDecl) : Except ConfigError Unit :=
  d.toDeclaration.validate "target"

def ScriptDecl.validate (d : ScriptDecl) : Except ConfigError Unit := do
  d.toDeclaration.validate "build_script"
  if d.crateRoot = none then
    .error (.missingField "crate_root" (d.owner "build_script"))
  else if d.links = some "" then
    .error (.invalidValue (d.owner "build_script" ++ ".links") .empty)
  else .ok ()

namespace Manifest

/-- Checks the settings, then each target and each build script in turn. -/
def validate (m : Manifest) : Except ConfigError Unit := do
  m.settings.validate "settings"
  m.targets.forM TargetDecl.validate
  m.scripts.forM ScriptDecl.validate

/-- The number of declarations. -/
def size (m : Manifest) : Nat := m.targets.length + m.scripts.length

end Manifest

/-! ## Rules -/

def Declaration.toTarget (d : Declaration) (kind : TargetKind) : Except RuleError Target := do
  let constraints ← match d.compatibleWith with
    | some conditions => some <$> ConstraintMap.ofConditions conditions
    | none => pure none
  return {
    name := d.name
    kind := kind
    srcs := d.srcs
    crateRoot := d.crateRoot
    edition := d.edition
    version := d.version
    features := .ofList d.features
    featureMap := d.featureMap
    compilerFlags := d.compilerFlags
    compilerEnv := d.compilerEnv
    tags := .ofList d.tags
    deps := d.deps
    procMacroDeps := d.procMacroDeps
    optionalDeps := d.optionalDeps
    aliases := d.aliases
    constraints := constraints }

def TargetDecl.toRule (d : TargetDecl) : Except RuleError Rule :=
  Rule.target <$> d.toDeclaration.toTarget d.kind.targetKind

def ScriptDecl.toRule (d : ScriptDecl) : Except RuleError Rule := do
  let target ← d.toDeclaration.toTarget .buildScript
  return .script { target, env := d.scriptEnv, links := d.links, data := d.data, tools := d.tools }

/-- The table with one more rule, given that the rule can be made. -/
def RuleTable.insertMade (table : RuleTable) (made : Except RuleError Rule) :
    Except RuleError RuleTable :=
  made.bind table.insert

/-- The rules of a manifest, targets before build scripts. -/
def Manifest.toTable (m : Manifest) : Except RuleError RuleTable :=
  (m.targets.map TargetDecl.toRule ++ m.scripts.map ScriptDecl.toRule).foldlM RuleTable.insertMade
    .empty

end BuildRules
