import BuildRules.Document

/-!
# Documents as JSON

Two forms: the compact one without any blanks, which keeps the order of entries, and the pretty one,
with two blanks per level and the entries sorted by key. Text outside ASCII stands for itself. Main
statement: a character can be read back from the front of a string (`unescape?_escapeChar`).
-/

namespace BuildRules.Json

/-! ## Strings -/

private def hexDigit (n : Nat) : Char := if n < 10 then Char.ofNat (48 + n) else Char.ofNat (87 + n)

/-- A character as it is written inside a string: quotes, backslashes and control characters are
escaped, everything else stands for itself. -/
def escapeChar (c : Char) : List Char :=
  match c with
  | '"' => ['\\', '"']
  | '\\' => ['\\', '\\']
  | '\n' => ['\\', 'n']
  | '\r' => ['\\', 'r']
  | '\t' => ['\\', 't']
  | c =>
    -- backspace and form feed have short forms, other control characters have not
    if c.toNat = 8 then ['\\', 'b']
    else if c.toNat = 12 then ['\\', 'f']
    else if c.toNat < 32 then
      ['\\', 'u', '0', '0', hexDigit (c.toNat / 16), hexDigit (c.toNat % 16)]
    else [c]

def quoted (s : String) : List Char := '"' :: (s.toList.flatMap escapeChar ++ ['"'])

private def hexValue (c : Char) : Nat := if c.toNat < 58 then c.toNat - 48 else c.toNat - 87

/-- The character that is written behind a backslash, and what follows it. -/
private def escaped? : List Char → Option (Char × List Char)
  | 'u' :: '0' :: '0' :: high :: low :: rest =>
    some (Char.ofNat (16 * hexValue high + hexValue low), rest)
  | 'n' :: rest => some ('\n', rest)
  | 'r' :: rest => some ('\r', rest)
  | 't' :: rest => some ('\t', rest)
  | 'b' :: rest => some (Char.ofNat 8, rest)
  | 'f' :: rest => some (Char.ofNat 12, rest)
  | c :: rest => some (c, rest)
  | [] => none

/-- The character that is written at the front of what is left of a string, and what follows it. -/
def unescape? : List Char → Option (Char × List Char)
  | [] => none
  | c :: rest =>
    if c = '"' then none else if c = '\\' then escaped? rest else some (c, rest)

private theorem hexValue_hexDigit : ∀ n < 16, hexValue (hexDigit n) = n := by decide

/-- An escaped character can be read back, whatever follows it. -/
theorem unescape?_escapeChar (c : Char) (rest : List Char) :
    unescape? (escapeChar c ++ rest) = some (c, rest) := by
  unfold escapeChar
  split
  -- five characters have an escape of their own
  iterate 5 · rfl
  · next hquote hbackslash _ _ _ =>
    split
    · next h => rw [← Char.ofNat_toNat c, h]; rfl
    split
    · next h => rw [← Char.ofNat_toNat c, h]; rfl
    split
    · next h =>
      have hhigh := hexValue_hexDigit (c.toNat / 16) (by omega)
      have hlow := hexValue_hexDigit (c.toNat % 16) (by omega)
      simp [unescape?, escaped?, hhigh, hlow, Nat.div_add_mod]
    · simp [unescape?, show c ≠ '"' from hquote, show c ≠ '\\' from hbackslash]

/-! ## The compact form -/

mutual

def compactChars : Document → List Char
  | .null => "null".toList
  | .bool true => "true".toList
  | .bool false => "false".toList
  | .int n => (toString n).toList
  | .decimal written => written.toList
  | .datetime written => quoted written
  | .text value => quoted value
  | .list items => '[' :: (compactItems items ++ [']'])
  | .table entries => '\x7b' :: (compactEntries entries ++ ['\x7d'])

def compactItems : List Document → List Char
  | [] => []
  | [item] => compactChars item
  | item :: items => compactChars item ++ ',' :: compactItems items

def compactEntries : List (String × Document) → List Char
  | [] => []
  | [(key, value)] => quoted key ++ ':' :: compactChars value
  | (key, value) :: entries =>
    quoted key ++ ':' :: (compactChars value ++ ',' :: compactEntries entries)

end

/-! ## The pretty form -/

private def newline (level : Nat) : List Char := '\n' :: List.replicate (2 * level) ' '

private def insertEntry (e : String × List Char) :
    List (String × List Char) → List (String × List Char)
  | [] => [e]
  | f :: rest => if e.1 < f.1 then e :: f :: rest else f :: insertEntry e rest

/-- What stands between an opening and a closing bracket, one item a line. -/
private def lines (level : Nat) : List (List Char) → List Char
  | [] => []
  | items =>
    (items.map fun item => newline (level + 1) ++ item).intersperse [','] |>.flatten |>.append
      (newline level)

mutual

def prettyChars (level : Nat) : Document → List Char
  | .list items => '[' :: (lines level (prettyItems (level + 1) items) ++ [']'])
  | .table entries =>
    '\x7b' :: (lines level ((prettyEntries (level + 1) entries).map fun e =>
      quoted e.1 ++ ':' :: ' ' :: e.2) ++ ['\x7d'])
  | document => compactChars document

def prettyItems (level : Nat) : List Document → List (List Char)
  | [] => []
  | item :: items => prettyChars level item :: prettyItems level items

/-- The entries with their values written, sorted by key. -/
def prettyEntries (level : Nat) : List (String × Document) → List (String × List Char)
  | [] => []
  | (key, value) :: entries =>
    insertEntry (key, prettyChars level value) (prettyEntries level entries)

end

end BuildRules.Json

namespace BuildRules.Document

def compact (d : Document) : String := String.ofList (Json.compactChars d)

def pretty (d : Document) : String := String.ofList (Json.prettyChars 0 d)

end BuildRules.Document
