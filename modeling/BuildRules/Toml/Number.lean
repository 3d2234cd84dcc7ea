import BuildRules.Document
import BuildRules.Toml.Reader

/-!
# Numbers, dates and times

Integers are signed and of 64 bits, in base ten or, without a sign, in base two, eight or sixteen.
Decimals are only recognised, and kept as they are written; one above zero that is too large for 64
bits is refused. Dates and times are checked and told in one form: with a `T` between them and
without zeros at the end of a fraction.
-/

namespace BuildRules.Toml

/-- Digits in a row, with single underscores between them. -/
def digitRun (p : Char → Bool) : List Char → List Char × List Char
  | [] => ([], [])
  | '_' :: c :: rest =>
    if p c then digitRun p (c :: rest) else ([], '_' :: c :: rest)
  | c :: rest =>
    if p c then
      let (digits, rest) := digitRun p rest
      (c :: digits, rest)
    else ([], c :: rest)

namespace Reader

/-- At least one digit, the first of them not behind an underscore. -/
def digits (p : Char → Bool) : Reader (List Char) := fun s =>
  match s with
  | c :: _ => if p c then some (digitRun p s) else none
  | [] => none

/-! ## Numbers -/

/-- The least number that is nearer to infinity than to any number of 64 bits: it lies half a step
above the greatest of them. -/
def infinityBound : Nat := Nat.pow 2 1024 - Nat.pow 2 970

/-- Whether the number of some digits, times a power of ten, is read as infinity. The place of its
first digit decides unless it is that of the bound, which has 309 digits. -/
def isInfinite (digits : List Char) (power : Int) : Bool :=
  let digits := digits.dropWhile (· = '0')
  let places := digits.length + power
  if digits.isEmpty ∨ places < 309 then false
  else if 309 < places then true
  else infinityBound * Nat.pow 10 (-power).toNat ≤ numberOf 10 digits * Nat.pow 10 power.toNat

def integer (value : Int) : Reader Document := do
  require (-9223372036854775808 ≤ value ∧ value < 9223372036854775808)
  return .int value

/-- A sign, if there is one. -/
def sign? : Reader (Option Char) := do
  if ← accept ['+'] then return some '+'
  else if ← accept ['-'] then return some '-'
  else return none

def signed (sign : Option Char) (n : Nat) : Int := if sign = some '-' then -n else n

/-- The digits before the point; a number that begins with zero has no more than it. -/
def wholeDigits : Reader (List Char) := do
  if ← accept ['0'] then return ['0'] else digits Char.isDigit

/-- The digits behind a point, if there is one; the first of them may be zero. -/
def fraction? : Reader (Option (List Char)) := do
  if ← accept ['.'] then return some (← digits Char.isDigit) else return none

/-- The sign and the digits behind the letter of an exponent, if there is one. -/
def exponent? : Reader (Option (Option Char × List Char)) := do
  match ← peek? with
  | some 'e' | some 'E' =>
    set ((← get).drop 1)
    let sign ← sign?
    return some (sign, ← digits Char.isDigit)
  | _ => return none

/-- A decimal behind its sign. One above zero must be finite. -/
def decimal (sign : Option Char) (whole : List Char) (fraction : Option (List Char))
    (exponent : Option (Option Char × List Char)) : Reader Document := do
  let behind := fraction.getD []
  let power := (exponent.map fun e => signed e.1 (numberOf 10 e.2)).getD 0
  require (sign = some '-' || !isInfinite (whole ++ behind) (power - behind.length))
  let fractionText := (fraction.map ('.' :: ·)).getD []
  let exponentText := (exponent.map fun e => 'e' :: e.1.toList ++ e.2).getD []
  return .decimal (String.ofList (sign.toList ++ whole ++ fractionText ++ exponentText))

/-- A number in base ten. -/
def tenBased : Reader Document := do
  let sign ← sign?
  if ← accept ['i', 'n', 'f'] then return .decimal (String.ofList (sign.toList ++ ['i', 'n', 'f']))
  if ← accept ['n', 'a', 'n'] then return .decimal (String.ofList (sign.toList ++ ['n', 'a', 'n']))
  let whole ← wholeDigits
  match ← fraction?, ← exponent? with
  | none, none => integer (signed sign (numberOf 10 whole))
  | fraction, exponent => decimal sign whole fraction exponent

def number : Reader Document := do
  if ← accept ['0', 'x'] then integer (numberOf 16 (← digits isHexDigit))
  else if ← accept ['0', 'o'] then integer (numberOf 8 (← digits fun c => '0' ≤ c && c ≤ '7'))
  else if ← accept ['0', 'b'] then integer (numberOf 2 (← digits fun c => c = '0' || c = '1'))
  else tenBased

/-! ## Dates and times -/

/-- A number of exactly `count` digits between two bounds. -/
def fixedDigits (count low high : Nat) : Reader (List Char) := do
  let digits ← exactCount count Char.isDigit
  let n := numberOf 10 digits
  require (low ≤ n && n ≤ high)
  return digits

def daysIn (year month : Nat) : Nat :=
  match month with
  | 2 => if year % 4 = 0 ∧ (year % 100 ≠ 0 ∨ year % 400 = 0) then 29 else 28
  | 4 | 6 | 9 | 11 => 30
  | _ => 31

def date : Reader (List Char) := do
  let year ← fixedDigits 4 0 9999
  exactly ['-']
  let month ← fixedDigits 2 1 12
  exactly ['-']
  let day ← fixedDigits 2 1 31
  require (numberOf 10 day ≤ daysIn (numberOf 10 year) (numberOf 10 month))
  return year ++ '-' :: month ++ '-' :: day

/-- A fraction of a second, of which nine digits count. -/
def secondFraction : Reader (List Char) := do
  if ← accept ['.'] then
    let digits ← takeWhile Char.isDigit
    require (!digits.isEmpty)
    match ((digits.take 9).reverse.dropWhile (· = '0')).reverse with
    | [] => return []
    | kept => return '.' :: kept
  else return []

def time : Reader (List Char) := do
  let hour ← fixedDigits 2 0 23
  exactly [':']
  let minute ← fixedDigits 2 0 59
  exactly [':']
  let second ← fixedDigits 2 0 60
  return hour ++ ':' :: minute ++ ':' :: second ++ (← secondFraction)

/-- What a time is ahead of or behind the common one. No difference is told as ahead. -/
def offset : Reader (List Char) := do
  match ← peek? with
  | some 'Z' | some 'z' => fun s => some (['Z'], s.drop 1)
  | some '+' => behind '+'
  | some '-' => behind '-'
  | _ => return []
where
  behind (sign : Char) : Reader (List Char) := do
    exactly [sign]
    let hour ← fixedDigits 2 0 23
    exactly [':']
    let minute ← fixedDigits 2 0 59
    let ahead := sign = '+' || numberOf 10 (hour ++ minute) = 0
    return (if ahead then '+' else '-') :: hour ++ ':' :: minute

/-- Whether a time follows a date: behind a letter it must, behind a blank it does if a digit is
next. -/
def timeFollows (s : List Char) : Bool :=
  match s with
  | 'T' :: _ | 't' :: _ => true
  | ' ' :: c :: _ => c.isDigit
  | _ => false

def dateMaybeTime : Reader Document := do
  let day ← date
  if timeFollows (← get) then
    -- the letter or the blank between date and time
    set ((← get).drop 1)
    let clock ← time
    return .datetime (String.ofList (day ++ 'T' :: clock ++ (← offset)))
  else return .datetime (String.ofList day)

def timeOnly : Reader Document := do
  return .datetime (String.ofList (← time))

/-- Whether the given shape comes next, in which `0` stands for any digit. -/
def looksLike (shape s : List Char) : Bool :=
  shape.length ≤ s.length && (shape.zip s).all fun (x, c) => if x = '0' then c.isDigit else x = c

/-- A number, a date or a time. -/
def numberOrTime : Reader Document := do
  let s ← get
  if looksLike ['0', '0', '0', '0', '-'] s then dateMaybeTime
  else if looksLike ['0', '0', ':'] s then timeOnly
  else number

end Reader

end BuildRules.Toml
