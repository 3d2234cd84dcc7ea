/-!
# What can be wrong with rules

The causes for which rules are refused or cannot be resolved, and their wording.
-/

namespace BuildRules

/-- What makes one target unusable on its own. -/
inductive TargetFault
  | unnamed
  | noSources
  | noCrateRoot
  | badEdition (edition : String)
  | strayAlias (dependency : String)
  deriving DecidableEq

inductive RuleError
  | undefinedDependency (target dependency : String)
  /-- A cycle of dependencies, with its first name repeated at the end. -/
  | cycle (path : List String)
  | noMatchingCondition (target platform : String)
  | unknownTarget (target : String)
  | duplicateTarget (target : String)
  | invalidTarget (target : String) (fault : TargetFault)
  | duplicateCondition (platform : String)
  | invalidPlatform (id : String)
  | noHostTools (platform : String)
  deriving DecidableEq

def TargetFault.message : TargetFault → String
  | .unnamed => "target name cannot be empty"
  | .noSources => "target has no source files"
  | .noCrateRoot => "build-script target requires a crate root"
  | .badEdition edition => "invalid edition '" ++ edition ++ "'"
  | .strayAlias dependency => "alias for '" ++ dependency ++ "', which is not a dependency"

namespace RuleError

def message : RuleError → String
  | undefinedDependency target dependency =>
    "Target '" ++ target ++ "' depends on '" ++ dependency ++ "', which is not defined"
  | cycle path => "Cyclic dependency: " ++ " -> ".intercalate path
  | noMatchingCondition target platform =>
    "No condition of target '" ++ target ++ "' matches platform '" ++ platform
      ++ "' and there is no //conditions:default entry"
  | unknownTarget target => "Target not found: " ++ target
  | duplicateTarget target => "Target '" ++ target ++ "' is defined more than once"
  | invalidTarget target fault => "Invalid target '" ++ target ++ "': " ++ fault.message
  | duplicateCondition platform =>
    "Platform '" ++ platform ++ "' appears more than once in a constraint map"
  | invalidPlatform id => "Invalid platform identifier '" ++ id ++ "'"
  | noHostTools platform => "Host platform '" ++ platform ++ "' has no host tools"

/-- Whether the declared rules and settings are at fault, and not the request. -/
def isConfiguration : RuleError → Bool
  | unknownTarget _ | invalidPlatform _ => false
  | _ => true

end RuleError

end BuildRules
