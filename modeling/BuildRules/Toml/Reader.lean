/-!
# Reading characters

A reader takes what it reads from the front of a text and leaves the rest, or fails.
-/

namespace BuildRules.Toml

abbrev Reader (α : Type) := StateT (List Char) Option α

namespace Reader

/-- The next character, which stays where it is. -/
def peek? : Reader (Option Char) := fun s => some (s.head?, s)

/-- The given characters. -/
def exactly (cs : List Char) : Reader Unit := fun s =>
  if cs <+: s then some ((), s.drop cs.length) else none

/-- Whether the given characters come next; they are read if so. -/
def accept (cs : List Char) : Reader Bool := fun s =>
  if cs <+: s then some (true, s.drop cs.length) else some (false, s)

def takeWhile (p : Char → Bool) : Reader (List Char) := fun s => some (s.span p)

def skipWhile (p : Char → Bool) : Reader Unit := fun s => some ((), s.dropWhile p)

/-- The next `n` characters, all of which satisfy `p`. -/
def exactCount (n : Nat) (p : Char → Bool) : Reader (List Char) := fun s =>
  if (s.take n).length = n ∧ (s.take n).all p then some (s.take n, s.drop n) else none

def require (condition : Bool) : Reader Unit := if condition then pure () else failure

end Reader

/-! ## Character classes -/

/-- A blank within a line. -/
def isSpace (c : Char) : Bool := c = ' ' || c = '\t'

/-- A character that may stand in comments and strings: a tab, or anything but control
characters. -/
def isPlain (c : Char) : Bool := c = '\t' || (0x20 ≤ c.toNat && c.toNat ≠ 0x7F)

def isBareKeyChar (c : Char) : Bool := c.isAlphanum || c = '-' || c = '_'

def hexValue (c : Char) : Nat :=
  if c.isDigit then c.toNat - 48 else if c.toNat ≤ 70 then c.toNat - 55 else c.toNat - 87

def isHexDigit (c : Char) : Bool :=
  c.isDigit || (65 ≤ c.toNat && c.toNat ≤ 70) || (97 ≤ c.toNat && c.toNat ≤ 102)

/-- The number that digits make in a base. -/
def numberOf (base : Nat) (digits : List Char) : Nat :=
  digits.foldl (fun n c => n * base + hexValue c) 0

/-! ## Blanks and line ends -/

namespace Reader

def spaces : Reader Unit := skipWhile isSpace

/-- The end of a line or of the text. -/
def lineEnd : Reader Unit := fun
  | [] => some ((), [])
  | '\n' :: rest => some ((), rest)
  | '\r' :: '\n' :: rest => some ((), rest)
  | _ => none

/-- A comment, if there is one, up to the end of its line. -/
def comment : Reader Unit := do
  if (← peek?) = some '#' then skipWhile isPlain

/-- What may follow on the line of a statement. -/
def restOfLine : Reader Unit := do
  spaces
  comment
  lineEnd

end Reader

end BuildRules.Toml
