import BuildRules.Toml.Value

/-!
# TOML documents

A text is read statement by statement: blank lines, comments, headers of tables and assignments.
Which texts are documents, and of which tree, follows TOML 1.0 and the documented behaviour of the
library `toml`, which also bounds how deep values may be nested and how many parts a key may have.
-/

namespace BuildRules.Toml

/-- What has been read of a text: the tree so far and the path of the table that is being filled. -/
structure Progress where
  root : Branches := []
  current : List String := []

namespace Progress

/-- Goes on with the table of a header, which is opened by `how`. -/
def openAt (p : Progress) (how : String → Branches → Option Branches) (key : List String × String) :
    Option Progress := do
  let root ← changeAt (how key.2) key.1 p.root
  return { root, current := key.1 ++ [key.2] }

def assignHere (p : Progress) (key : List String × String) (value : Document) :
    Option Progress := do
  let root ← changeAt (assign key.2 value key.1) p.current p.root
  return { p with root }

end Progress

namespace Reader

/-- One statement, or the end of an empty line. The fuel is for the value of an assignment. -/
def statement (fuel : Nat) (p : Progress) : Reader Progress := do
  match ← peek? with
  | some '\n' | some '\r' | some '#' =>
    restOfLine
    return p
  | some '[' =>
    if ← accept ['[', '['] then
      let header ← key
      exactly [']', ']']
      restOfLine
      StateT.lift (p.openAt openNext header)
    else
      exactly ['[']
      let header ← key
      exactly [']']
      restOfLine
      StateT.lift (p.openAt openTable header)
  | _ =>
    let left ← key
    exactly ['=']
    spaces
    let right ← value fuel
    restOfLine
    StateT.lift (p.assignHere left right)

def statements : (fuel : Nat) → Progress → Reader Progress
  | 0, _ => failure
  | fuel + 1, p => do
    spaces
    if (← peek?).isNone then return p
    statements fuel (← statement fuel p)

end Reader

/-- The document that a text holds. Every statement takes at least one character. -/
def parse? (text : String) : Option Document := do
  let cs := text.toList
  let cs := if cs.head? = some (Char.ofNat 0xFEFF) then cs.tail else cs
  let (p, _) ← Reader.statements (cs.length + 1) {} cs
  return p.root.toDocument

end BuildRules.Toml
