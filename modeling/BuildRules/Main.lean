import BuildRules.CommandLine

/-!
# The program

Looks up what a command line needs in the file system and the environment, runs it and prints what
comes of it.
-/

namespace BuildRules

/-- What is found at a path on disk. -/
def stateOnDisk (path : Path) : IO FileState := do
  match ← (IO.FS.Handle.mk path.text .read).toBaseIO with
  | .ok handle =>
    match ← handle.readBinToEnd.toBaseIO with
    | .ok bytes => return ((String.fromUTF8? bytes).map FileState.text).getD .unreadable
    | .error _ => return .unreadable
  | .error (.noFileOrDirectory ..) => return .absent
  | .error (.inappropriateType ..) | .error (.invalidArgument ..) => return .blocked
  | .error _ => return .unreadable

/-- The surroundings of a command line, with the files at the paths that it looks at. -/
def surroundings (words : List String) : IO CommandLine.Surroundings := do
  let directory := Path.ofText (← IO.currentDir).toString
  let home := ((← IO.getEnv "HOME").filter (· ≠ "")).map Path.ofText
  let states ← (CommandLine.candidates words directory home).mapM fun path => do
    return (path, ← stateOnDisk path)
  return {
    files := fun path => (states.lookup path).getD .absent
    directory
    home
    overrides := {
      platform := ← IO.getEnv "RULEKIT_PLATFORM"
      hostPlatform := ← IO.getEnv "RULEKIT_HOST_PLATFORM"
      jobs := ← IO.getEnv "RULEKIT_JOBS" }
    json := ← IO.getEnv "RULEKIT_JSON" }

end BuildRules

def main (words : List String) : IO UInt32 := do
  let output := BuildRules.CommandLine.run words (← BuildRules.surroundings words)
  IO.print output.stdout
  IO.eprint output.stderr
  return UInt32.ofNat output.exitCode
