import BuildRules.Proofs.Document.Compact
import BuildRules.Resolution.Codec

/-!
# Fingerprints

The text that a fingerprint is taken of tells the resolved target: the written form tells every
field, and it is a plain document, so its compact text is unambiguous. Two resolved targets have one
fingerprint only if they are equal or the digests of two texts collide. Main statement:
`encoded_eq_iff`.
-/

namespace BuildRules

/-! ## Written forms are plain -/

namespace Document

/-- The documents of some entries are plain. -/
def ArePlain (entries : Entries) : Prop := ∀ entry ∈ entries, entry.2.IsPlain

attribute [simp] IsPlain.null IsPlain.text

@[simp] theorem isPlain_list_iff {items : List Document} :
    (list items).IsPlain ↔ ∀ item ∈ items, item.IsPlain :=
  ⟨fun | .list h => h, .list⟩

@[simp] theorem isPlain_table_iff {entries : Entries} :
    (table entries).IsPlain ↔ ArePlain entries :=
  ⟨fun | .table h => h, .table⟩

@[simp] theorem arePlain_nil : ArePlain [] := nofun

@[simp] theorem arePlain_cons_iff {entry : String × Document} {entries : Entries} :
    ArePlain (entry :: entries) ↔ entry.2.IsPlain ∧ ArePlain entries :=
  List.forall_mem_cons

@[simp] theorem arePlain_append_iff {entries entries' : Entries} :
    ArePlain (entries ++ entries') ↔ ArePlain entries ∧ ArePlain entries' :=
  List.forall_mem_append

theorem arePlain_map {α : Type} {l : List α} {write : α → String × Document}
    (h : ∀ a, (write a).2.IsPlain) : ArePlain (l.map write) :=
  List.forall_mem_map.2 fun a _ => h a

@[simp] theorem isPlain_texts (values : List String) : (texts values).IsPlain := by
  simp [texts]

@[simp] theorem isPlain_textOrNull (value : Option String) : (textOrNull value).IsPlain := by
  cases value <;> simp [textOrNull]

section Writers

variable {α : Type} {write : α → Document} (hwrite : ∀ a, (write a).IsPlain)
include hwrite

theorem isPlain_ofMap (m : SortedMap String α) : (ofMap write m).IsPlain :=
  isPlain_table_iff.2 (arePlain_map fun e => hwrite e.2)

theorem arePlain_ifSome (key : String) (value : Option α) : ArePlain (ifSome key write value) := by
  cases value <;> simp [ifSome, hwrite]

theorem arePlain_ifEntries (key : String) (m : SortedMap String α) :
    ArePlain (ifEntries key write m) := by
  unfold ifEntries
  split <;> simp [isPlain_ofMap hwrite]

end Writers

end Document

open Document

@[simp] theorem Environment.isPlain_toDocument (env : Environment) :
    (Environment.toDocument env).IsPlain :=
  isPlain_ofMap .text env

@[simp] theorem NameSet.isPlain_toDocument (names : NameSet) :
    (NameSet.toDocument names).IsPlain :=
  isPlain_texts _

@[simp] theorem ConstraintMap.isPlain_toDocument (map : ConstraintMap) :
    map.toDocument.IsPlain := by
  simp [toDocument, arePlain_map, arePlain_ifSome]

@[simp] theorem Target.arePlain_entries (t : Target) : ArePlain t.entries := by
  have hconstraints : ((t.constraints.map ConstraintMap.toDocument).getD .null).IsPlain := by
    cases t.constraints <;> simp
  simp [entries, isPlain_ofMap, hconstraints]

@[simp] theorem Script.arePlain_entries (s : Script) : ArePlain s.entries := by
  simp [entries]

@[simp] theorem Rule.isPlain_toDocument (rule : Rule) : rule.toDocument.IsPlain := by
  cases rule <;> simp [toDocument]

@[simp] theorem UnitKey.isPlain_toDocument (key : UnitKey) : key.toDocument.IsPlain := by
  simp [toDocument]

@[simp] theorem BuildUnit.isPlain_toDocument (u : BuildUnit) : u.toDocument.IsPlain := by
  simp [toDocument, arePlain_ifEntries]

namespace Resolved

theorem isPlain_toDocument (r : Resolved) : r.toDocument.IsPlain := by
  simp [toDocument]

/-! ## The text of a fingerprint -/

/-- The text that a fingerprint is taken of tells all of the resolved target. -/
theorem encoded_eq_iff {r s : Resolved} : r.encoded = s.encoded ↔ r = s := by
  rw [encoded, encoded, compact_inj r.isPlain_toDocument s.isPlain_toDocument, toDocument_inj]

end Resolved

end BuildRules
