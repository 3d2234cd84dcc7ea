import BuildRules.Toml.Reader

/-!
# Strings

The four ways to write a string: between double quotes with escapes or between single quotes
without, on one line or, between three quotes, on several. A string is read in two steps: first its
raw extent up to the closing quotes, then what the raw characters stand for.
-/

namespace BuildRules.Toml

/-! ## Extent -/

/-- The raw characters up to a closing quote, and the rest. With escapes, a backslash keeps the
character after it from closing. -/
def extent (quote : Char) (escapes : Bool) : List Char → Option (List Char × List Char)
  | [] => none
  | '\\' :: c :: rest =>
    if escapes then (extent quote escapes rest).map fun p => ('\\' :: c :: p.1, p.2)
    else if c = quote then some (['\\'], rest)
    else (extent quote escapes rest).map fun p => ('\\' :: c :: p.1, p.2)
  | c :: rest =>
    if c = quote then some ([], rest) else (extent quote escapes rest).map fun p => (c :: p.1, p.2)

/-- The raw characters up to three closing quotes, and the rest. Up to two quotes more belong to the
string. -/
def longExtent (quote : Char) (escapes : Bool) : List Char → Option (List Char × List Char)
  | [] => none
  | '\\' :: c :: rest =>
    if escapes then (longExtent quote escapes rest).map fun p => ('\\' :: c :: p.1, p.2)
    else (longExtent quote escapes (c :: rest)).map fun p => ('\\' :: p.1, p.2)
  | c :: rest =>
    if [quote, quote, quote] <+: c :: rest then
      -- of four or five quotes the first one or two are part of the string
      let quotes := ((c :: rest).takeWhile (· = quote)).length
      let kept := min (quotes - 3) 2
      some (List.replicate kept quote, (c :: rest).drop (kept + 3))
    else (longExtent quote escapes rest).map fun p => (c :: p.1, p.2)

/-! ## Meaning -/

/-- The characters with every line end written as one character. -/
def unixLines? : List Char → Option (List Char)
  | [] => some []
  | '\r' :: '\n' :: rest => (unixLines? rest).map ('\n' :: ·)
  | '\r' :: _ => none
  | c :: rest => (unixLines? rest).map (c :: ·)

/-- What a character stands for after a backslash. -/
def shortEscape? (c : Char) : Option Char :=
  match c with
  | 'b' => some (Char.ofNat 8)
  | 't' => some '\t'
  | 'n' => some '\n'
  | 'f' => some (Char.ofNat 12)
  | 'r' => some '\r'
  | '"' => some '"'
  | '\\' => some '\\'
  | _ => none

/-- The character of a code written in hexadecimal digits. -/
def codePoint? (digits : List Char) : Option Char :=
  let n := numberOf 16 digits
  if digits.all isHexDigit ∧ n.isValidChar then some (Char.ofNat n) else none

/-- Whether nothing but blanks stands before the next line end. -/
def endsLine (cs : List Char) : Bool := (cs.dropWhile isSpace).head? = some '\n'

/-- The characters that escapes stand for. A backslash at the end of a line swallows the line end
and the blanks after it; while it does so, `swallowing` holds. -/
def unescape? : (swallowing : Bool) → List Char → Option (List Char)
  | _, [] => some []
  | _, '\\' :: 'u' :: a :: b :: c :: d :: rest => do
    return (← codePoint? [a, b, c, d]) :: (← unescape? false rest)
  | _, '\\' :: 'U' :: a :: b :: c :: d :: e :: f :: g :: h :: rest => do
    return (← codePoint? [a, b, c, d, e, f, g, h]) :: (← unescape? false rest)
  | _, '\\' :: c :: rest =>
    match shortEscape? c with
    | some x => (unescape? false rest).map (x :: ·)
    | none => if endsLine (c :: rest) then unescape? true rest else none
  | swallowing, c :: rest =>
    if swallowing && (isSpace c || c = '\n') then unescape? true rest
    else if isPlain c || c = '\n' then (unescape? false rest).map (c :: ·)
    else none

/-! ## Strings -/

namespace Reader

/-- The rest of a string on one line, once its opening quote is read. -/
def shortString (quote : Char) (escapes : Bool) : Reader String := fun s => do
  let (raw, rest) ← extent quote escapes s
  if raw.contains '\n' then none
  else if escapes then return (String.ofList (← unescape? false raw), rest)
  else if raw.all isPlain then return (String.ofList raw, rest)
  else none

/-- The rest of a string on several lines, once its opening quotes are read. A line end right after
them does not count. -/
def longString (quote : Char) (escapes : Bool) : Reader String := fun s => do
  let (raw, rest) ← longExtent quote escapes s
  let lines ← unixLines? raw
  let body := if lines.head? = some '\n' then lines.tail else lines
  if escapes then return (String.ofList (← unescape? false body), rest)
  else if body.all (fun c => isPlain c || c = '\n') then return (String.ofList body, rest)
  else none

/-- A string on one line. -/
def keyString (quote : Char) : Reader String := do
  exactly [quote]
  shortString quote (quote = '"')

/-- A string on one line or several. -/
def string (quote : Char) : Reader String := do
  if ← accept [quote, quote, quote] then longString quote (quote = '"') else keyString quote

end Reader

end BuildRules.Toml
