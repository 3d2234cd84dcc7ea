import BuildRules.Text.Natural

/-!
# Command lines

What the words of a command line ask for. Options stand before or after the command; they are
written long or short, with their value behind an equals sign or as the next word, and short ones
may be joined. Two dashes end the options. The first word at fault decides: it makes the line
unusable, and a wish for help or for the version counts from where it stands.
-/

namespace BuildRules.CommandLine

inductive Command
  | resolve
  | plan
  | check
  | platforms
  deriving DecidableEq

def Command.name : Command → String
  | resolve => "resolve"
  | plan => "plan"
  | check => "check"
  | platforms => "platforms"

/-- The command that a word names, in full or by its first letter. -/
def Command.ofWord? : String → Option Command
  | "resolve" | "r" => some .resolve
  | "plan" | "p" => some .plan
  | "check" | "c" => some .check
  | "platforms" => some .platforms
  | _ => none

inductive Opt
  | manifest
  | verbose
  | platform
  | jobs
  | json
  | help
  | version
  deriving DecidableEq

namespace Opt

def long : Opt → String
  | manifest => "manifest"
  | verbose => "verbose"
  | platform => "platform"
  | jobs => "jobs"
  | json => "json"
  | help => "help"
  | version => "version"

def short? : Opt → Option Char
  | manifest => some 'm'
  | verbose => some 'v'
  | platform => some 'p'
  | jobs => some 'j'
  | json => none
  | help => some 'h'
  | version => some 'V'

def takesValue : Opt → Bool
  | manifest | platform | jobs => true
  | verbose | json | help | version => false

end Opt

/-- The options that may stand behind a command, or before any. -/
def optionsOf : Option Command → List Opt
  | none => [.manifest, .verbose, .help, .version]
  | some .resolve => [.manifest, .verbose, .platform, .json, .help, .version]
  | some .plan => [.manifest, .verbose, .platform, .jobs, .json, .help, .version]
  | some .check | some .platforms => [.manifest, .verbose, .json, .help, .version]

/-- What has been given so far on one side of the command. -/
structure Given where
  manifest : Option String := none
  verbose : Bool := false
  platform : Option String := none
  jobs : Option Nat := none
  json : Bool := false
  target : Option String := none

/-- Why a command line asks for no command. -/
inductive Halt
  | unusable
  | help (command : Option Command)
  | version (command : Option Command)
  deriving DecidableEq

namespace Given

/-- Takes in an option without a value. No option may be given twice. -/
def flag (g : Given) (command : Option Command) : Opt → Except Halt Given
  | .verbose => if g.verbose then .error .unusable else .ok { g with verbose := true }
  | .json => if g.json then .error .unusable else .ok { g with json := true }
  | .help => .error (.help command)
  | .version => .error (.version command)
  | .manifest | .platform | .jobs => .error .unusable

/-- Takes in an option with its value. The path of a manifest is not empty. -/
def option (g : Given) (value : String) : Opt → Except Halt Given
  | .manifest =>
    if g.manifest.isSome ∨ value = "" then .error .unusable
    else .ok { g with manifest := some value }
  | .platform =>
    if g.platform.isSome then .error .unusable else .ok { g with platform := some value }
  | .jobs =>
    match g.jobs, Text.natural? value with
    | none, .ok n => .ok { g with jobs := some n }
    | _, _ => .error .unusable
  | .verbose | .json | .help | .version => .error .unusable

/-- Takes in a word that is no option: the target to resolve. -/
def word (g : Given) (command : Option Command) (text : String) : Except Halt Given :=
  if command = some .resolve ∧ g.target = none then .ok { g with target := some text }
  else .error .unusable

end Given

/-! ## Words -/

/-- Whether a word reads as an option: a dash with more behind it. -/
def looksLikeOption (word : String) : Bool :=
  match word.toList with
  | '-' :: _ :: _ => true
  | _ => false

/-- A word that is an option. -/
inductive OptionWord
  | long (name : List Char) (value : Option (List Char))
  | short (letters : List Char)

def cutAtEquals (cs : List Char) : List Char × Option (List Char) :=
  match cs.dropWhile (· ≠ '=') with
  | [] => (cs, none)
  | _ :: value => (cs.takeWhile (· ≠ '='), some value)

def OptionWord.ofText? (word : String) : Option OptionWord :=
  match word.toList with
  | '-' :: '-' :: cs => let (name, value) := cutAtEquals cs; some (.long name value)
  | '-' :: c :: cs => some (.short (c :: cs))
  | _ => none

/-- Takes in short options that are joined. The last may want a value that is still to come. -/
def readShort (command : Option Command) (g : Given) :
    List Char → Except Halt (Given × Option Opt)
  | [] => .ok (g, none)
  | c :: cs =>
    match (optionsOf command).find? fun o => o.short? = some c with
    | none => .error .unusable
    | some o =>
      if o.takesValue then
        match cs with
        | [] => .ok (g, some o)
        -- the rest of the word is the value, behind an equals sign or not
        | '=' :: value => do return (← g.option (String.ofList value) o, none)
        | value => do return (← g.option (String.ofList value) o, none)
      else do readShort command (← g.flag command o) cs

/-- Takes in an option. It may want a value that is still to come. -/
def readOption (command : Option Command) (g : Given) :
    OptionWord → Except Halt (Given × Option Opt)
  | .short letters => readShort command g letters
  | .long name value =>
    match (optionsOf command).find? fun o => o.long.toList = name with
    | none => .error .unusable
    | some o =>
      match o.takesValue, value with
      | true, some value => do return (← g.option (String.ofList value) o, none)
      | true, none => .ok (g, some o)
      | false, some _ => .error .unusable
      | false, none => do return (← g.flag command o, none)

/-- Takes in the words behind a command. -/
def readWords (command : Option Command) (g : Given) : List String → Except Halt Given
  | [] => .ok g
  | word :: words =>
    -- everything behind two dashes is a plain word
    if word = "--" then words.foldlM (fun g text => g.word command text) g
    else
      match OptionWord.ofText? word with
      | none => do readWords command (← g.word command word) words
      | some option =>
        match readOption command g option with
        | .error halt => .error halt
        | .ok (g, none) => readWords command g words
        | .ok (g, some o) =>
          match words with
          | [] => .error .unusable
          | value :: words =>
            -- the value that is wanted is missing
            if looksLikeOption value then .error .unusable
            else do readWords command (← g.option value o) words

/-- Takes in the words before the command, and then those behind it. -/
def readLine (g : Given) : List String → Except Halt (Command × Given × Given)
  | [] => .error .unusable
  | word :: words =>
    if word = "--" then .error .unusable
    else
      match OptionWord.ofText? word with
      | none =>
        match Command.ofWord? word with
        | some command => do return (command, g, ← readWords (some command) {} words)
        | none => if word = "help" then .error (helpOn words) else .error .unusable
      | some option =>
        match readOption none g option with
        | .error halt => .error halt
        | .ok (g, none) => readLine g words
        | .ok (g, some o) =>
          match words with
          | [] => .error .unusable
          | value :: words =>
            if looksLikeOption value then .error .unusable
            else do readLine (← g.option value o) words
where
  helpOn : List String → Halt
    | [] => .help none
    | [word] =>
      match Command.ofWord? word with
      | some command => .help (some command)
      | none => if word = "help" then .help none else .unusable
    | _ => .unusable

/-! ## Invocations -/

/-- What a command is run with. -/
structure Invocation where
  command : Command
  manifest : Option String
  verbose : Bool
  platform : Option String
  jobs : Option Nat
  json : Bool
  /-- The target to resolve. -/
  target : String

/-- Whether the text of a variable switches something on. -/
def isOn (text : String) : Bool :=
  text ≠ "" && text.map Char.toLower ∉ ["n", "no", "f", "false", "off", "0"]

/-- What a command line asks for. A variable of the environment may ask for JSON as well; of a
manifest given on both sides of the command the latter counts. -/
def Invocation.ofWords (words : List String) (jsonVariable : Option String) :
    Except Halt Invocation := do
  let (command, before, behind) ← readLine {} words
  if command = .resolve ∧ behind.target = none then .error .unusable
  else
    return {
      command
      manifest := behind.manifest.or before.manifest
      verbose := before.verbose || behind.verbose
      platform := behind.platform
      jobs := behind.jobs
      json := behind.json || jsonVariable.any isOn
      target := behind.target.getD "" }

end BuildRules.CommandLine
