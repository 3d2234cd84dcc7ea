import BuildRules.Configuration.Manifest.Codec
import BuildRules.Configuration.User.Codec
import BuildRules.File.Tree
import BuildRules.Text.Natural
import BuildRules.Toml

/-!
# Configurations

A configuration is a manifest with its effective settings. They come from three layers: variables of
the environment win over the manifest, and the manifest wins over the configuration of the user. The
manifest is the one named, or the nearest one found from a directory upward. A user configuration
that cannot be used is passed over.
-/

namespace BuildRules

/-! ## Reading -/

/-- The document in a file. -/
def readToml (files : Files) (path : Path) : Except ConfigError Document :=
  match files path with
  | .absent => .error (.notFound path.text)
  | .blocked | .unreadable => .error .unreadable
  | .text content =>
    match Toml.parse? content with
    | some document => .ok document
    | none => .error .malformed

def orMalformed {α : Type} : Option α → Except ConfigError α
  | some a => .ok a
  | none => .error .malformed

namespace Manifest

def ofToml (document : Document) : Except ConfigError Manifest := do
  let manifest ← orMalformed (ofDocument? .toml document)
  manifest.validate
  return manifest

/-- The manifest in a text. -/
def parse (text : String) : Except ConfigError Manifest := do
  ofToml (← orMalformed (Toml.parse? text))

def load (files : Files) (path : Path) : Except ConfigError Manifest := do
  ofToml (← readToml files path)

end Manifest

def UserConfig.load (files : Files) (path : Path) : Except ConfigError UserConfig := do
  let config ← orMalformed (ofDocument? .toml (← readToml files path))
  config.validate
  return config

/-! ## Layers -/

/-- What variables of the environment say. -/
structure Overrides where
  platform : Option String := none
  hostPlatform : Option String := none
  jobs : Option String := none
  deriving DecidableEq

def Overrides.apply (o : Overrides) (s : Settings) : Except ConfigError Settings := do
  let jobs ← match o.jobs with
    | none => pure s.jobs
    | some text =>
      match Text.natural? (Text.trim text) with
      | .ok n => pure (some n)
      | .error fault => .error (.invalidValue "RULEKIT_JOBS" (.notNumber fault))
  return { s with
    defaultPlatform := o.platform.or s.defaultPlatform
    hostPlatform := o.hostPlatform.or s.hostPlatform
    jobs }

/-- The user configuration at a path, or the empty one where there is none that can be used. -/
def userConfigAt (files : Files) (path : Option Path) : UserConfig :=
  match path with
  | none => {}
  | some path =>
    if (files path).isPresent then
      match UserConfig.load files path with
      | .ok config => config
      | .error _ => {}
    else {}

/-! ## Loading -/

structure Configuration where
  /-- The manifest with the effective settings. -/
  manifest : Manifest
  user : UserConfig
  /-- The directory of the manifest, if there is a manifest. -/
  root : Option Path

/-- Where to find the manifest. -/
inductive ManifestSource
  | file (path : Path)
  /-- The nearest one from a directory upward. -/
  | above (directory : Path)

def manifestName : String := "rules.toml"

/-- The nearest directory that has a manifest. -/
def manifestRoot? (files : Files) (start : Path) : Option Path :=
  (start :: start.parents).find? fun directory => (files (directory.child manifestName)).isPresent

/-- The manifest and its directory. -/
def findManifest (files : Files) : ManifestSource → Except ConfigError (Manifest × Option Path)
  | .file path => do return (← Manifest.load files path, path.parent?)
  | .above start =>
    match manifestRoot? files start with
    | some root => do return (← Manifest.load files (root.child manifestName), some root)
    | none => .ok ({}, none)

namespace Configuration

/-- Lays the settings of a manifest over those of the user and under the overrides. -/
def ofLayers (manifest : Manifest) (root : Option Path) (user : UserConfig)
    (overrides : Overrides) : Except ConfigError Configuration := do
  let settings ← overrides.apply (manifest.settings.fill user.toSettings)
  settings.validate "settings"
  return { manifest := { manifest with settings }, user, root }

def load (files : Files) (source : ManifestSource) (userPath : Option Path)
    (overrides : Overrides) : Except ConfigError Configuration := do
  let (manifest, root) ← findManifest files source
  ofLayers manifest root (userConfigAt files userPath) overrides

def settings (c : Configuration) : Settings := c.manifest.settings

/-- Where the configuration of a user lies in the user's home. -/
def userPath (home : Path) : Path := (home.child ".rulekit").child "config.toml"

/-- The paths that loading looks at. -/
def candidates (source : ManifestSource) (userPath : Option Path) : List Path :=
  (match source with
    | .file path => [path]
    | .above start => (start :: start.parents).map (·.child manifestName))
  ++ userPath.toList

end Configuration

end BuildRules
