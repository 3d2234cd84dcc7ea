/-!
# Documents

The one tree that configuration files are read into, that declarations are decoded from and that
answers are written from.
-/

namespace BuildRules

inductive Document
  | null
  | bool (value : Bool)
  | int (value : Int)
  /-- A number with a fraction or an exponent, or one that is no number, as it is written. -/
  | decimal (written : String)
  /-- A date or a time, as it is written. -/
  | datetime (written : String)
  | text (value : String)
  | list (items : List Document)
  /-- Entries in the order in which they are given. The tables that a text is read into have each
  key once. Where a key stands twice, a record takes the first of its entries and a map the last. -/
  | table (entries : List (String × Document))

namespace Document

instance : Inhabited Document := ⟨null⟩

/-- The list of some texts. -/
def texts (values : List String) : Document := list (values.map text)

/-- The text, or null in its absence. -/
def textOrNull : Option String → Document
  | some value => text value
  | none => null

@[simp] theorem texts_inj {l m : List String} : texts l = texts m ↔ l = m := by
  simp [texts, List.map_inj_right]

@[simp] theorem textOrNull_inj {a b : Option String} : textOrNull a = textOrNull b ↔ a = b := by
  cases a <;> cases b <;> simp [textOrNull]

/-! ## Entries of tables -/

abbrev Entries := List (String × Document)

/-- An entry for a value that is there. -/
def ifSome {α : Type} (key : String) (write : α → Document) : Option α → Entries
  | some value => [(key, write value)]
  | none => []

/-- An entry for a list that is not empty. -/
def ifNonempty (key : String) (values : List String) : Entries :=
  if values.isEmpty then [] else [(key, texts values)]

end Document

end BuildRules
