/-!
# Paths

A path is a text cut at its slashes. Steps that are empty or a single dot lead nowhere. The
directories above a path are found from its text alone: its last step is left off, again and again.
-/

namespace BuildRules

/-- The text before the first slash, and the texts after each slash. -/
structure Path where
  first : String
  steps : List String
  deriving DecidableEq

namespace Path

/-! ## Text -/

private def cutAtSlashes : List Char → List Char × List (List Char)
  | [] => ([], [])
  | c :: rest =>
    let (part, parts) := cutAtSlashes rest
    if c = '/' then ([], part :: parts) else (c :: part, parts)

def ofText (text : String) : Path :=
  let (first, steps) := cutAtSlashes text.toList
  ⟨String.ofList first, steps.map String.ofList⟩

def text (p : Path) : String := "/".intercalate (p.first :: p.steps)

/-- The path of no steps at all, which stands for the directory that one is in. -/
def here : Path := ⟨"", []⟩

/-- Whether a path begins at the root. -/
def isRooted (p : Path) : Bool := p.first = "" && !p.steps.isEmpty

/-- A file of a directory. -/
def child (p : Path) (name : String) : Path :=
  if p = here then ⟨name, []⟩
  else if p.steps.getLast? = some "" then { p with steps := p.steps.dropLast ++ [name] }
  else { p with steps := p.steps ++ [name] }

/-! ## Limits -/

/-- Whether a step can be the name of a file: it takes less than 256 bytes. -/
def isName (step : String) : Bool := step.utf8ByteSize < 256

/-- Whether a path can be followed: it takes less than 4096 bytes, and none of them is zero. -/
def canFollow (p : Path) : Bool :=
  p.text.utf8ByteSize < 4096 && !p.text.toList.contains (Char.ofNat 0)

/-! ## Directories above -/

/-- Whether a step leads nowhere. -/
def isIdle (step : String) : Bool := step = "" || step = "."

/-- The path with these steps, given last first, of which the last ones that lead nowhere are left
off. -/
def ending (p : Path) (reversed : List String) : Path :=
  match (reversed.dropWhile isIdle).reverse with
  | [] => if p.isRooted then ⟨p.first, [""]⟩ else ⟨p.first, []⟩
  | steps => ⟨p.first, steps⟩

/-- The paths with fewer and fewer of these steps, given last first. -/
def shortened (p : Path) : List String → List Path
  | [] => []
  | step :: reversed =>
    if isIdle step then p.shortened reversed else p.ending reversed :: p.shortened reversed

/-- The directories above a path, the nearest first. -/
def parents (p : Path) : List Path :=
  p.shortened p.steps.reverse ++ if p.first = "" then [] else [here]

def parent? (p : Path) : Option Path := p.parents.head?

end Path

end BuildRules
