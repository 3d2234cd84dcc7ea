import BuildRules.Collection.SortedMap
import BuildRules.Collection.SortedSet
import BuildRules.Document

/-!
# Decoding documents

Reading values of a given form out of a document. Decoding is strict: it fails where a value has
another form than the one asked for. A record is written as a table of its fields or as a list of
them in order. Beside the readers stand the writers for maps, which tell maps apart (`ofMap_inj`,
`ifEntries_inj`).

Which documents a record, a map or an alternative may be read from follows the documented behaviour
of `serde` and its derived readers. What `serde_json` and `toml` do differently under them is kept
in a `Dialect`.
-/

namespace BuildRules.Document

/-! ## Plain values -/

def text? : Document → Option String
  | text value => some value
  | _ => none

def bool? : Document → Option Bool
  | bool value => some value
  | _ => none

/-- An integer from `low` up to but not including `high`. -/
def intBetween? (low high : Int) : Document → Option Int
  | int value => if low ≤ value ∧ value < high then some value else none
  | _ => none

/-- A signed integer of 64 bits. -/
def int64? : Document → Option Int := intBetween? (-9223372036854775808) 9223372036854775808

/-- An unsigned integer of 64 bits. -/
def nat64? (d : Document) : Option Nat := (d.intBetween? 0 18446744073709551616).map Int.toNat

def list? : Document → Option (List Document)
  | list items => some items
  | _ => none

/-- The key under which a date or time stands where a table is asked for. -/
def datetimeKey : String := "$__toml_private_datetime"

def entries? : Document → Option (List (String × Document))
  | table entries => some entries
  | datetime written => some [(datetimeKey, text written)]
  | _ => none

/-! ## Compound values -/

def listOf? {α : Type} (item? : Document → Option α) (d : Document) : Option (List α) :=
  d.list?.bind fun items => items.mapM item?

def texts? : Document → Option (List String) := listOf? text?

def mapOf? {α : Type} (value? : Document → Option α) (d : Document) : Option (SortedMap String α) :=
  d.entries?.bind fun entries =>
    (entries.mapM fun e => (value? e.2).map fun value => (e.1, value)).map SortedMap.ofList

/-- The table of a map. -/
def ofMap {α : Type} (write : α → Document) (m : SortedMap String α) : Document :=
  table (m.toList.map fun e => (e.1, write e.2))

/-- An entry for a map that is not empty. -/
def ifEntries {α : Type} (key : String) (write : α → Document) (m : SortedMap String α) : Entries :=
  if m.isEmpty then [] else [(key, ofMap write m)]

section Injective

variable {α : Type} {write : α → Document} {m n : SortedMap String α}

/-- The table of a map tells the map, if what is written for a value tells the value. -/
theorem ofMap_inj (hwrite : ∀ a b, write a = write b → a = b) :
    ofMap write m = ofMap write n ↔ m = n := by
  refine ⟨fun h => SortedMap.eq_of_toList_eq ?_, fun h => by rw [h]⟩
  refine (List.map_inj_right fun e f h => ?_).1 (table.inj h)
  obtain ⟨hkey, hvalue⟩ := Prod.mk.inj h
  exact Prod.ext hkey (hwrite _ _ hvalue)

theorem ifEntries_inj (hwrite : ∀ a b, write a = write b → a = b) {key : String} :
    ifEntries key write m = ifEntries key write n ↔ m = n := by
  refine ⟨fun h => ?_, fun h => by rw [h]⟩
  unfold ifEntries at h
  split at h <;> split at h
  · next hm hn => rw [SortedMap.isEmpty_iff.1 hm, SortedMap.isEmpty_iff.1 hn]
  · cases h
  · cases h
  · simpa [ofMap_inj hwrite] using h

@[simp] theorem ofMap_text_inj {m n : SortedMap String String} :
    ofMap text m = ofMap text n ↔ m = n :=
  ofMap_inj fun _ _ => text.inj

@[simp] theorem ofMap_texts_inj {m n : SortedMap String (List String)} :
    ofMap texts m = ofMap texts n ↔ m = n :=
  ofMap_inj fun _ _ => texts_inj.1

end Injective

/-- A value or null. -/
def orNull? {α : Type} (value? : Document → Option α) : Document → Option (Option α)
  | null => some none
  | d => (value? d).map some

/-! ## Dialects -/

/-- What depends on the format a document comes from. -/
structure Dialect where
  /-- What may stand behind the name of an alternative that has nothing more to say. -/
  isNothing : Document → Bool
  /-- Whether a list that stands for a record may have more items than the record has fields. -/
  longLists : Bool

def Dialect.json : Dialect where
  isNothing
    | null => true
    | _ => false
  longLists := false

/-- JSON inside a record that is told by a tag. -/
def Dialect.taggedJson : Dialect where
  isNothing
    | null | table [] => true
    | _ => false
  longLists := false

def Dialect.toml : Dialect where
  isNothing
    | table [] | list [] => true
    | _ => false
  longLists := true

/-- One of some named alternatives, written as its name or as a table with its name for only key. -/
def oneOf? {α : Type} (dialect : Dialect) (alternatives : List (String × α)) : Document → Option α
  | text name => alternatives.lookup name
  | table [(name, rest)] => if dialect.isNothing rest then alternatives.lookup name else none
  | _ => none

/-! ## Records -/

/-- The fields of a record that are given. -/
structure Fields where
  given : List (String × Document)
  /-- Whether they were given in order; then no field without a default may be left out. -/
  inOrder : Bool

/-- The fields of a record with the given keys. A table may have no other keys if `strict`. That a
key stands twice is not looked for, as no table that a text is read into has such a key. -/
def fields? (dialect : Dialect) (strict : Bool) (keys : List String) : Document → Option Fields
  | list items =>
    if dialect.longLists ∨ items.length ≤ keys.length then
      some { given := keys.zip items, inOrder := true }
    else none
  | d =>
    d.entries?.bind fun entries =>
      if strict → ∀ e ∈ entries, e.1 ∈ keys then some { given := entries, inOrder := false }
      else none

namespace Fields

variable {α : Type}

def required (f : Fields) (key : String) (value? : Document → Option α) : Option α :=
  (f.given.lookup key).bind value?

/-- A field that may be left out or null. -/
def optional (f : Fields) (key : String) (value? : Document → Option α) : Option (Option α) :=
  match f.given.lookup key with
  | some d => orNull? value? d
  | none => if f.inOrder then none else some none

/-- A field that stands at a default when it is left out. -/
def withDefault (f : Fields) (key : String) (default : α) (value? : Document → Option α) :
    Option α :=
  match f.given.lookup key with
  | some d => value? d
  | none => some default

end Fields

end BuildRules.Document
