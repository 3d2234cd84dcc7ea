import BuildRules.Text.Natural

/-!
# What can be wrong with configuration

The causes for which a manifest, a user configuration or an environment variable is refused, and
their wording.
-/

namespace BuildRules

/-- Why the value of a field is refused. -/
inductive ValueFault
  | emptyPlatform
  | noJobs
  | emptyFlagName
  | emptyName
  | badEdition (edition : String)
  | notDependency (name : String)
  | emptyCondition
  | empty
  | notNumber (fault : Text.NumberFault)
  deriving DecidableEq

inductive ConfigError
  | notFound (path : String)
  /-- The file is there but cannot be read as text. -/
  | unreadable
  /-- The text is no TOML document, or the document does not have the form asked for. -/
  | malformed
  | missingField (field owner : String)
  | invalidValue (field : String) (fault : ValueFault)
  deriving DecidableEq

def ValueFault.message : ValueFault → String
  | .emptyPlatform => "platform cannot be empty"
  | .noJobs => "must be at least 1"
  | .emptyFlagName => "flag name cannot be empty"
  | .emptyName => "name cannot be empty"
  | .badEdition edition => "invalid edition '" ++ edition ++ "'"
  | .notDependency name => "'" ++ name ++ "' is not a dependency"
  | .emptyCondition => "condition keys cannot be empty"
  | .empty => "cannot be empty"
  | .notNumber fault => fault.message

def ConfigError.message : ConfigError → String
  | .notFound path => "Configuration file not found: " ++ path
  | .unreadable => "Failed to read configuration file"
  | .malformed => "Invalid TOML syntax"
  | .missingField field owner => "Missing required field '" ++ field ++ "' in " ++ owner
  | .invalidValue field fault => "Invalid value for '" ++ field ++ "': " ++ fault.message

end BuildRules
