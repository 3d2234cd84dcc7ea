import BuildRules.File.Path

/-!
# Files

What is found at a path, and trees of files in which paths are looked up.
-/

namespace BuildRules

/-- What is found at a path. -/
inductive FileState
  /-- Nothing, although the directory is there. -/
  | absent
  /-- Nothing, as the path leads through a file, or cannot be followed. -/
  | blocked
  /-- A directory, or a file that is no text. -/
  | unreadable
  | text (content : String)
  deriving DecidableEq

def FileState.isPresent : FileState → Bool
  | absent | blocked => false
  | unreadable | text _ => true

/-- What is found at every path. -/
abbrev Files := Path → FileState

/-- Files and directories under the steps that lead to them. A file without content is no text. -/
structure FileTree where
  files : List (List String × Option String) := []
  directories : List (List String) := []

namespace FileTree

/-- Whether steps lead to a directory. Every directory on the way to a file or a directory is
there. -/
def isDirectory (tree : FileTree) (steps : List String) : Bool :=
  tree.directories.any (steps.isPrefixOf ·)
    || tree.files.any (fun f => steps.isPrefixOf f.1 && steps.length < f.1.length)

/-- What is found by going some steps from a directory. -/
def stateFrom (tree : FileTree) (directory : List String) : List String → FileState
  | [] => .unreadable
  | step :: rest =>
    if Path.isIdle step then tree.stateFrom directory rest
    else if step = ".." then tree.stateFrom directory.dropLast rest
    else if !Path.isName step then .blocked
    else if tree.isDirectory (directory ++ [step]) then tree.stateFrom (directory ++ [step]) rest
    else
      match tree.files.lookup (directory ++ [step]) with
      | none => .absent
      | some content =>
        -- there is no way on through a file
        if rest = [] then (content.map FileState.text).getD .unreadable else .blocked

/-- The files as they are seen from a directory. -/
def filesFrom (tree : FileTree) (directory : List String) : Files := fun path =>
  if path = Path.here then .absent
  else if !path.canFollow then .blocked
  else if path.isRooted then tree.stateFrom [] path.steps
  else tree.stateFrom directory (path.first :: path.steps)

end FileTree

end BuildRules
