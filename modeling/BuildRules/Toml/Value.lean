import BuildRules.Toml.Number
import BuildRules.Toml.Text
import BuildRules.Toml.Tree

/-!
# Keys and values

Keys, alone or dotted, and values: strings, numbers, dates and times, the two truth values, lists
and tables on one line.
-/

namespace BuildRules.Toml.Reader

/-! ## Keys -/

def simpleKey : Reader String := do
  match ← peek? with
  | some '"' => keyString '"'
  | some '\'' => keyString '\''
  | _ =>
    let cs ← takeWhile isBareKeyChar
    require (!cs.isEmpty)
    return String.ofList cs

/-- The greatest number of parts that a key may have. -/
def maxParts : Nat := 79

/-- A key of at most so many parts and what it goes through, with blanks around every part. -/
def dottedKey : (parts : Nat) → Reader (List String × String)
  | 0 => failure
  | parts + 1 => do
    spaces
    let key ← simpleKey
    spaces
    if ← accept ['.'] then
      let (through, last) ← dottedKey parts
      return (key :: through, last)
    else return ([], key)

/-- A key and the parts that it goes through. -/
def key : Reader (List String × String) := dottedKey maxParts

/-! ## Values -/

/-- What follows blanks, line ends and comments. A comment goes on up to the end of its line. -/
def afterGap : (inComment : Bool) → List Char → List Char
  | _, [] => []
  | _, '\n' :: rest | _, '\r' :: '\n' :: rest => afterGap false rest
  | true, c :: rest => if isPlain c then afterGap true rest else c :: rest
  | false, c :: rest =>
    if c = '#' then afterGap true rest
    else if isSpace c then afterGap false rest
    else c :: rest

/-- Blanks, line ends and comments, which may stand between the items of a list. -/
def gap : Reader Unit := fun s => some ((), afterGap false s)

/-- The greatest depth to which lists and tables on one line may be nested. -/
def maxDepth : Nat := 79

mutual

/-- A value. Every step down or on takes at least one character, so the length of the text is fuel
enough. -/
def valueWith : (fuel depth : Nat) → Reader Document
  | 0, _ => failure
  | fuel + 1, depth => do
    match ← peek? with
    | some '"' => return .text (← string '"')
    | some '\'' => return .text (← string '\'')
    | some 't' => exactly ['t', 'r', 'u', 'e']; return .bool true
    | some 'f' => exactly ['f', 'a', 'l', 's', 'e']; return .bool false
    | some '[' =>
      require (0 < depth)
      exactly ['[']
      return .list (← items fuel (depth - 1))
    | some '\x7b' =>
      require (0 < depth)
      exactly ['\x7b']
      spaces
      if ← accept ['\x7d'] then return .table []
      else return (← assignments fuel (depth - 1) []).toDocument
    | _ => numberOrTime

/-- The items of a list up to its end; a comma may stand after the last. -/
def items : (fuel depth : Nat) → Reader (List Document)
  | 0, _ => failure
  | fuel + 1, depth => do
    gap
    if ← accept [']'] then return []
    let item ← valueWith fuel depth
    gap
    -- the end may follow a comma
    if ← accept [','] then return item :: (← items fuel depth)
    exactly [']']
    return [item]

/-- The assignments of a table on one line up to its end, which add to those made. -/
def assignments : (fuel depth : Nat) → Branches → Reader Branches
  | 0, _, _ => failure
  | fuel + 1, depth, made => do
    let (through, last) ← key
    exactly ['=']
    spaces
    let value ← valueWith fuel depth
    spaces
    let made ← StateT.lift (assign last value through made)
    -- behind a comma another assignment must follow
    if ← accept [','] then assignments fuel depth made
    else
      exactly ['\x7d']
      return made

end

/-- A value that is not nested too deeply. The fuel must exceed the length of the text. -/
def value (fuel : Nat) : Reader Document := valueWith fuel maxDepth

end BuildRules.Toml.Reader
