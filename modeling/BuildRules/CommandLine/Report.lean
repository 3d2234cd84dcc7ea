import BuildRules.Resolution.Codec
import BuildRules.Resolution.Plan

/-!
# Reports

What the commands print about resolutions, plans, tables and platforms, as plain lines or as JSON.
-/

namespace BuildRules.CommandLine

/-- What a command leaves behind. -/
structure Output where
  exitCode : Nat := 0
  stdout : String := ""
  stderr : String := ""
  deriving DecidableEq

def unlines (lines : List String) : String := String.join (lines.map (· ++ "\n"))

namespace Output

def printed (lines : List String) : Output := { stdout := unlines lines }

def json (entries : List (String × Document)) : Output := printed [(Document.table entries).pretty]

/-- The message of a failure and, indented, what caused it. -/
def failure (message : String) (cause : Option String) : Output where
  exitCode := 1
  stderr :=
    unlines <| ("Error: " ++ message) ::
      match cause with
      | none => []
      | some cause => ["", "Caused by:", "    " ++ indented cause]
where
  indented (text : String) : String :=
    String.ofList (text.toList.flatMap fun c => if c = '\n' then "\n    ".toList else [c])

/-- The first output, and that of a failure after it. -/
def followedBy (first second : Output) : Output where
  exitCode := second.exitCode
  stdout := first.stdout ++ second.stdout
  stderr := first.stderr ++ second.stderr

end Output

/-- A heading with lines under it, if there are any. -/
def underHeading (heading : String) (lines : List String) : List String :=
  if lines.isEmpty then [] else heading :: lines

/-! ## Resolutions -/

private def onOff (b : Bool) : String := if b then "on" else "off"

def resolvedLines (r : Resolved) : List String :=
  let unit := r.unit
  [r.name ++ " (" ++ unit.kind.name ++ ") is compatible with " ++ r.platform.text]
  ++ underHeading "  Dependencies:" (unit.deps.map fun key => "    " ++ key.label)
  ++ underHeading ("  Closure (" ++ toString r.closure.length ++ " units):")
      (r.closure.map fun u => "    " ++ u.key.label)
  ++ (if unit.features.isEmpty then []
      else ["  Features: " ++ ", ".intercalate unit.features.toList])
  ++ (if unit.compilerFlags.isEmpty then []
      else ["  Rustc flags: " ++ " ".intercalate unit.compilerFlags])
  ++ underHeading "  Build script environment:"
      (unit.scriptEnv.toList.map fun (key, value) => "    " ++ key ++ "=" ++ value)
  ++ [ "  Aspects: clippy " ++ onOff r.rule.common.runsClippy ++ ", rustfmt "
        ++ onOff r.rule.common.runsRustfmt,
      "  Fingerprint: " ++ r.fingerprint ]

def resolvedEntries (r : Resolved) (groups : List (List String)) : List (String × Document) :=
  [ ("target", .text r.name),
    ("platform", .text r.platform.text),
    ("status", .text "compatible"),
    ("unit", r.unit.toDocument),
    ("closure", .list (r.closure.map BuildUnit.toDocument)),
    ("build_groups", .list (groups.map .texts)),
    ("clippy", .bool r.rule.common.runsClippy),
    ("rustfmt", .bool r.rule.common.runsRustfmt),
    ("fingerprint", .text r.fingerprint) ]

def reportResolution (json : Bool) (target : String) (platform : Platform) : Resolution → Output
  | .compatible r =>
    if json then
      match r.groups with
      | .ok groups => .json (resolvedEntries r groups)
      | .error e => .failure e.message none
    else .printed (resolvedLines r)
  | .incompatible reason =>
    if json then
      .json
        [ ("target", .text target),
          ("platform", .text platform.text),
          ("status", .text "incompatible"),
          ("message", .text reason.message),
          ("reason", reason.toDocument) ]
    else .printed [reason.message]

/-! ## Plans -/

/-- A text filled up with blanks to a width. -/
def padded (width : Nat) (text : String) : String :=
  text ++ String.ofList (List.replicate (width - text.length) ' ')

def planLines (plan : Plan) : List String :=
  ["Plan for " ++ plan.platform.text]
  ++ plan.resolved.map (fun r =>
      "  " ++ padded 32 r.name ++ " " ++ toString r.closure.length ++ " dependencies")
  ++ plan.skippingMessage?.toList
  ++ (if plan.skipped.isEmpty then []
      else ["Manual targets not planned: " ++ ", ".intercalate plan.skipped])
  ++ [plan.summary]

def Verdict.entries (v : Verdict) : List (String × Document) :=
  ("status", .text v.status) ::
    match v with
    | .resolved r =>
      [("closure", .texts r.closureNames), ("fingerprint", .text r.fingerprint)]
    | .incompatible reason => [("message", .text reason.message)]
    | .failed e => [("error", .text e.message)]

def planEntries (plan : Plan) : List (String × Document) :=
  [ ("platform", .text plan.platform.text),
    ("success", .bool plan.isSuccess),
    ("targets", Document.ofMap (fun v => .table (Verdict.entries v)) plan.verdicts),
    ("skipped", .texts plan.skipped) ]

/-- Prints a plan, and fails if a target failed. -/
def reportPlan (json : Bool) (plan : Plan) : Output :=
  let shown : Output :=
    if json then .json (planEntries plan)
    else
      { stdout := unlines (planLines plan)
        stderr := unlines <| plan.failures.map fun (name, e) =>
          "error: " ++ name ++ ": " ++ e.message }
  if plan.isSuccess then shown
  else
    shown.followedBy <| .failure
      (toString plan.failures.length ++ " target(s) failed to resolve for " ++ plan.platform.text)
      none

/-! ## Tables -/

/-- Prints whether a table is sound, and fails if it is not. -/
def reportCheck (json : Bool) (table : RuleTable) : Output :=
  let scripts := (table.rules.values.filter Rule.isScript).length
  let result := table.check
  let message : Option String :=
    match result with
    | .ok () => none
    | .error e => some e.message
  let shown : Output :=
    if json then
      .json
        [ ("valid", .bool message.isNone),
          ("targets", .int table.size),
          ("build_scripts", .int scripts),
          ("error", .textOrNull message) ]
    else
      match message with
      | none =>
        .printed
          [ "OK: " ++ toString table.size ++ " targets (" ++ toString scripts
              ++ " build scripts), no missing dependencies or cycles" ]
      | some message => { stderr := unlines ["error: " ++ message] }
  if message.isNone then shown
  else shown.followedBy (.failure "rules manifest is invalid" none)

/-! ## Platforms -/

/-- The platforms that constraint maps of a table name. -/
def referencedPlatforms (table : RuleTable) : SortedSet Platform :=
  .ofList <| table.rules.values.flatMap fun rule =>
    (rule.common.constraints.map ConstraintMap.platforms).getD []

def reportPlatforms (json : Bool) (table : RuleTable) : Output :=
  let referenced := (referencedPlatforms table).toList
  if json then
    .json
      [ ("host_tools", .texts (Platform.hostTools.map Platform.text)),
        ("referenced", .texts (referenced.map Platform.text)) ]
  else
    .printed <|
      underHeading "Platforms with host tools:" (Platform.hostTools.map fun p => "  " ++ p.text)
      ++ underHeading "Platforms referenced by constraint maps:"
        (referenced.map fun p => "  " ++ p.text ++ if p.hasHostTools then "" else " (target only)")

end BuildRules.CommandLine
