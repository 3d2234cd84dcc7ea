import BuildRules.Rule.Target
import BuildRules.Text.Uppercase

/-!
# Build scripts

A build script is compiled and run on the host before the target that depends on it, and hands that
target an environment.
-/

namespace BuildRules

structure Script where
  target : Target
  /-- The variables that the script declares itself. -/
  env : Environment := ∅
  /-- The native library that the script links. -/
  links : Option String := none
  data : List String := []
  tools : List String := []
  deriving DecidableEq

/-- The target that a script runs for. -/
structure ScriptContext where
  package : String
  version : Option String
  target : Platform
  host : Platform
  features : NameSet

namespace Script

/-- A script whose only source is its crate root. -/
def ofRoot (name root : String) : Script :=
  { target := { name, kind := .buildScript, srcs := [root], crateRoot := some root } }

/-- The script with another target, which stays a build script. -/
def setTarget (s : Script) (target : Target) : Script :=
  { s with target := { target with kind := .buildScript } }

/-- The variable that announces a feature. -/
def featureVariable (feature : String) : String :=
  "CARGO_FEATURE_" ++ (Text.upper feature).map fun c => if c = '-' then '_' else c

/-- The variables that follow from what the script runs for. -/
def computedEnv (s : Script) (context : ScriptContext) : Environment :=
  .ofList <|
    [ ("TARGET", context.target.text),
      ("HOST", context.host.text),
      ("CARGO_CFG_TARGET_ARCH", context.target.arch),
      ("CARGO_PKG_NAME", context.package),
      ("CARGO_PKG_VERSION", context.version.getD "0.0.0") ]
    ++ (s.links.map fun links => ("CARGO_MANIFEST_LINKS", links)).toList
    ++ context.features.toList.map fun feature => (featureVariable feature, "1")

/-- The variables a script hands on; those it declares win over the computed ones. -/
def environment (s : Script) (context : ScriptContext) : Environment :=
  (s.computedEnv context).override s.env

end Script

end BuildRules
