import BuildRules.CommandLine.Arguments
import BuildRules.CommandLine.Report
import BuildRules.Configuration

/-!
# Commands

What a command line does to the files and the environment it is run in: it loads the configuration,
makes the table of rules, and prints what the command asks for.
-/

namespace BuildRules.CommandLine

/-- What a command line is run in. -/
structure Surroundings where
  files : Files
  directory : Path
  home : Option Path
  overrides : Overrides
  /-- The variable that may ask for JSON. -/
  json : Option String

/-! ## Texts of the program -/

def programName : String := "rulekit"

def programVersion : String := "0.1.0"

def versionLine (command : Option Command) : String :=
  let name := match command with
    | none => programName
    | some command => programName ++ "-" ++ command.name
  name ++ " " ++ programVersion

def usageLines (command : Option Command) : List String :=
  match command with
  | none => ["Usage: " ++ programName ++ " [OPTIONS] <COMMAND>", "",
      "Commands: resolve, plan, check, platforms"]
  | some .resolve => ["Usage: " ++ programName ++ " resolve [OPTIONS] <TARGET>"]
  | some command => ["Usage: " ++ programName ++ " " ++ command.name ++ " [OPTIONS]"]

/-! ## Running -/

/-- A command either prints something or fails with a printed message. -/
abbrev Run (α : Type) := Except Output α

/-- Fails with a message and its cause. -/
def orFailure {α : Type} (message : String) : Except RuleError α → Run α
  | .ok a => .ok a
  | .error e => .error (.failure message (some e.message))

def orPlainFailure {α : Type} : Except RuleError α → Run α
  | .ok a => .ok a
  | .error e => .error (.failure e.message none)

/-- The cause of a failure to load. A file that cannot be read has a cause of its own, so the causes
are numbered. -/
def loadFailure (message : String) (e : ConfigError) : Output :=
  .failure message <| some <|
    match e with
    | .unreadable => "0: " ++ e.message
    | _ => e.message

structure Workspace where
  configuration : Configuration
  table : RuleTable

namespace Workspace

def sourceOf (i : Invocation) (s : Surroundings) : ManifestSource :=
  match i.manifest with
  | some path => .file (.ofText path)
  | none => .above s.directory

def load (i : Invocation) (s : Surroundings) : Run Workspace := do
  let name := i.manifest.getD manifestName
  let userPath := s.home.map Configuration.userPath
  let configuration ←
    match Configuration.load s.files (sourceOf i s) userPath s.overrides with
    | .ok configuration => pure configuration
    | .error e => .error (loadFailure ("Failed to load " ++ name) e)
  let table ← orFailure "Invalid target declaration" configuration.manifest.toTable
  return { configuration, table }

def requireManifest (w : Workspace) : Run Unit :=
  if w.configuration.root.isSome then .ok ()
  else .error (.failure "No rules.toml found in this directory or any parent" none)

/-- The platform that is asked for, or the configured one. -/
def platform (w : Workspace) (i : Invocation) : Run Platform :=
  match i.platform.or w.configuration.settings.defaultPlatform with
  | some id => orFailure ("Invalid platform '" ++ id ++ "'") (Platform.ofLabel id)
  | none =>
    .error (.failure "No platform given; pass --platform or set settings.default_platform" none)

end Workspace

def runResolve (i : Invocation) (w : Workspace) : Run Output := do
  w.requireManifest
  let platform ← w.platform i
  let resolver ← orPlainFailure (Resolver.ofSettings w.table w.configuration.settings)
  let resolution ← orFailure ("Failed to resolve '" ++ i.target ++ "' for " ++ platform.text)
    (resolver.resolve i.target platform)
  return reportResolution i.json i.target platform resolution

def runPlan (i : Invocation) (w : Workspace) : Run Output := do
  w.requireManifest
  let platform ← w.platform i
  let settings := w.configuration.settings
  let resolver ← orPlainFailure
    (Resolver.ofSettings w.table { settings with jobs := i.jobs.or settings.jobs })
  return reportPlan i.json (resolver.plan platform)

def runCheck (i : Invocation) (w : Workspace) : Run Output := do
  w.requireManifest
  return reportCheck i.json w.table

def runCommand (i : Invocation) (s : Surroundings) : Run Output := do
  let w ← Workspace.load i s
  match i.command with
  | .resolve => runResolve i w
  | .plan => runPlan i w
  | .check => runCheck i w
  | .platforms => return reportPlatforms i.json w.table

/-- The paths that a command line looks at. -/
def candidates (words : List String) (directory : Path) (home : Option Path) : List Path :=
  match Invocation.ofWords words none with
  | .error _ => []
  | .ok i =>
    Configuration.candidates
      (match i.manifest with
        | some path => .file (.ofText path)
        | none => .above directory)
      (home.map Configuration.userPath)

/-- What a command line prints. One that asks for no command fails with code 2. -/
def run (words : List String) (s : Surroundings) : Output :=
  match Invocation.ofWords words s.json with
  | .error .unusable => { exitCode := 2, stderr := unlines (usageLines none) }
  | .error (.help command) => .printed (usageLines command)
  | .error (.version command) => .printed [versionLine command]
  | .ok i =>
    match runCommand i s with
    | .ok output => output
    | .error output => output

end BuildRules.CommandLine
