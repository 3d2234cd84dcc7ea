import BuildRules.Proofs.Document.Fields
import Mathlib.Data.List.Forall2

/-!
# Forms of documents

A reader accepts the documents of a form, and the value that it reads is told by the document. The
form and what is told are said of the document alone; `Yields` puts the two together, and there is
one lemma for each reader. Records are given by their fields: a key, what may stand under it and
whether it may be missing. Main statements: `yields_mapOf?` for maps and, for records,
`yields_record`.
-/

namespace BuildRules

/-! ## Exact runs -/

/-- The run has a value exactly if `accepted` holds, and its value satisfies `told`. -/
structure Yields {α : Type} (x : Option α) (accepted : Prop) (told : α → Prop) : Prop where
  exact : (∃ a, x = some a) ↔ accepted
  sound : ∀ a, x = some a → told a

section

variable {α β : Type} {x : Option α} {accepted accepted' : Prop} {told told' : α → Prop}

theorem Yields.some {a : α} (h : accepted) (ha : told a) : Yields (some a) accepted told where
  exact := iff_of_true ⟨a, rfl⟩ h
  sound b hb := by
    cases hb
    exact ha

theorem Yields.none (h : ¬ accepted) : Yields none accepted told where
  exact := iff_of_false nofun h
  sound := nofun

theorem Yields.congr (h : Yields x accepted told) (haccepted : accepted ↔ accepted')
    (htold : ∀ a, told a → told' a) : Yields x accepted' told' where
  exact := h.exact.trans haccepted
  sound a ha := htold a (h.sound a ha)

theorem Yields.map {f : α → β} {told' : β → Prop} (h : Yields x accepted told)
    (hf : ∀ a, told a → told' (f a)) : Yields (x.map f) accepted told' where
  exact := by simpa using h.exact
  sound b hb := by
    rcases Option.map_eq_some_iff.1 hb with ⟨a, ha, rfl⟩
    exact hf a (h.sound a ha)

/-- Of two runs one after the other, each has its own condition. -/
theorem Yields.bind {f : α → Option β} {told' : β → Prop} (h : Yields x accepted told)
    (hf : ∀ a, told a → Yields (f a) accepted' told') :
    Yields (x >>= f) (accepted ∧ accepted') told' := by
  cases x with
  | none =>
    have hrefused : ¬ accepted := fun haccepted => nomatch h.exact.2 haccepted
    exact .none fun hboth => hrefused hboth.1
  | some a =>
    have haccepted : accepted := h.exact.1 ⟨a, rfl⟩
    exact (hf a (h.sound a rfl)).congr (by simp [haccepted]) fun _ hb => hb

theorem Yields.mapM {f : α → Option β} {accepted : α → Prop} {told : α → β → Prop} {l : List α}
    (h : ∀ a ∈ l, Yields (f a) (accepted a) (told a)) :
    Yields (l.mapM f) (∀ a ∈ l, accepted a) (List.Forall₂ told l) := by
  induction l with
  | nil => exact .some nofun .nil
  | cons a rest ih =>
    have hrest := ih fun b hb => h b (List.mem_cons_of_mem _ hb)
    rw [List.mapM_cons]
    refine ((h a List.mem_cons_self).bind fun b hb => hrest.bind fun l' hl' =>
      Yields.some trivial (List.Forall₂.cons hb hl')).congr ?_ fun _ hl' => hl'
    simp

end

namespace Document

variable {α : Type} {value? : Document → Option α} {form : Document → Prop} {d : Document}

/-! ## Forms -/

def IsText (d : Document) : Prop := ∃ value, d = text value

/-- A natural number below `2 ^ 64`. -/
def IsCount (d : Document) : Prop := ∃ n : Nat, n < 18446744073709551616 ∧ d = int n

def IsListOf (form : Document → Prop) (d : Document) : Prop :=
  ∃ items, d = list items ∧ ∀ item ∈ items, form item

/-- A map with free keys. What counts as a table is told by `IsTable`. -/
def IsMapOf (IsTable : Document → Entries → Prop) (form : Document → Prop) (d : Document) : Prop :=
  ∃ entries, IsTable d entries ∧ ∀ e ∈ entries, form e.2

def OrNull (form : Document → Prop) (d : Document) : Prop := d = null ∨ form d

/-- Nothing but a table counts as one. -/
def IsPlainTable (d : Document) (entries : Entries) : Prop := d = table entries

/-- A date or a time counts as a table with one entry, its text. -/
inductive IsTableOrDate : Document → Entries → Prop
  | table (entries : Entries) : IsTableOrDate (.table entries) entries
  | datetime (written : String) :
    IsTableOrDate (.datetime written) [("$__toml_private_datetime", .text written)]

/-! ## What a document tells -/

/-- The document is what is written for the value. -/
def Written (write : α → Document) (d : Document) (a : α) : Prop := d = write a

/-- Null tells that there is no value. -/
def OptionTold (told : Document → α → Prop) (d : Document) : Option α → Prop
  | some a => told d a
  | none => d = null

def ListTold (told : Document → α → Prop) (d : Document) (l : List α) : Prop :=
  ∃ items, d = list items ∧ List.Forall₂ told items l

/-- The map finds the value of each entry; of entries with one key the last counts. -/
def MapTold (write : α → Document) (d : Document) (m : SortedMap String α) : Prop :=
  ∃ entries, IsTableOrDate d entries ∧
    ∀ key, (m.get? key).map write = entries.reverse.lookup key

/-! ## Readers of values -/

theorem yields_text? (d : Document) : Yields d.text? (IsText d) (Written .text d) := by
  cases d with
  | text value => exact .some ⟨value, rfl⟩ rfl
  | _ => exact .none nofun

theorem yields_nat64?_int (n : Int) :
    Yields (int n).nat64? (IsCount (int n)) (Written (fun n : Nat => .int n) (int n)) := by
  by_cases hn : 0 ≤ n ∧ n < 18446744073709551616
  · have hread : (int n).nat64? = some n.toNat := by simp [nat64?, intBetween?, hn]
    have hcast : int n = int n.toNat := congrArg int (by omega)
    rw [hread]
    exact .some ⟨n.toNat, by omega, hcast⟩ hcast
  · have hread : (int n).nat64? = none := by simp [nat64?, intBetween?, hn]
    rw [hread]
    apply Yields.none
    intro hcount
    rcases hcount with ⟨m, hm, heq⟩
    cases heq
    exact hn ⟨by omega, by omega⟩

theorem yields_nat64? (d : Document) :
    Yields d.nat64? (IsCount d) (Written (fun n : Nat => .int n) d) := by
  cases d with
  | int n => exact yields_nat64?_int n
  | _ => exact .none nofun

theorem yields_orNull? {told : Document → α → Prop} (h : Yields (value? d) (form d) (told d)) :
    Yields (orNull? value? d) (OrNull form d) (OptionTold told d) := by
  by_cases hd : d = null
  · subst hd
    exact .some (.inl rfl) rfl
  · have hread : orNull? value? d = (value? d).map some := by
      unfold orNull?
      split
      · exact absurd rfl hd
      · rfl
    rw [hread]
    have hsome : Yields ((value? d).map some) (form d) (OptionTold told d) := h.map fun _ ha => ha
    exact hsome.congr (or_iff_right hd).symm fun _ ha => ha

theorem yields_listOf? {told : Document → α → Prop}
    (h : ∀ items, d = list items → ∀ item ∈ items, Yields (value? item) (form item) (told item)) :
    Yields (listOf? value? d) (IsListOf form d) (ListTold told d) := by
  cases d with
  | list items =>
    refine (Yields.mapM (h items rfl)).congr ?_ fun l hl => ⟨items, rfl, hl⟩
    simp [IsListOf]
  | _ => exact .none nofun

theorem eq_map_of_forall₂ {β : Type} {write : α → β} {l : List β} {l' : List α}
    (h : List.Forall₂ (fun b a => b = write a) l l') : l = l'.map write := by
  induction h with
  | nil => rfl
  | cons hb _ ih => rw [hb, ih, List.map_cons]

theorem yields_texts? (d : Document) : Yields d.texts? (IsListOf IsText d) (Written .texts d) := by
  refine (yields_listOf? fun _ _ item _ => yields_text? item).congr Iff.rfl ?_
  intro values htold
  rcases htold with ⟨items, rfl, hitems⟩
  exact congrArg list (eq_map_of_forall₂ hitems)

theorem entries?_eq_some_iff {entries : Entries} :
    d.entries? = some entries ↔ IsTableOrDate d entries := by
  constructor
  · intro h
    cases d with
    | table _ =>
      cases h
      exact .table entries
    | datetime written =>
      cases h
      exact .datetime written
    | _ => cases h
  · intro h
    cases h <;> rfl

theorem yields_entries {write : α → Document}
    (h : ∀ d, Yields (value? d) (form d) (Written write d)) (entries : Entries) :
    Yields (entries.mapM fun e => (value? e.2).map fun value => (e.1, value))
      (∀ e ∈ entries, form e.2) (fun l => entries = l.map fun e => (e.1, write e.2)) := by
  have hentry : ∀ e ∈ entries, Yields ((value? e.2).map fun value => (e.1, value)) (form e.2)
      (fun e' => e = (e'.1, write e'.2)) :=
    fun e _ => (h e.2).map fun _ hvalue => Prod.ext rfl hvalue
  exact (Yields.mapM hentry).congr Iff.rfl fun _ => eq_map_of_forall₂

/-- A map is read from a table whose values can be read, and has the values of its entries. -/
theorem yields_mapOf? {write : α → Document}
    (h : ∀ d, Yields (value? d) (form d) (Written write d)) (d : Document) :
    Yields (mapOf? value? d) (IsMapOf IsTableOrDate form d) (MapTold write d) := by
  cases hentries : d.entries? with
  | none =>
    have hread : mapOf? value? d = none := by simp [mapOf?, hentries]
    rw [hread]
    apply Yields.none
    intro hmap
    rcases hmap with ⟨entries, htable, -⟩
    cases hentries.symm.trans (entries?_eq_some_iff.2 htable)
  | some entries =>
    have hread : mapOf? value? d = (entries.mapM fun e =>
        (value? e.2).map fun value => (e.1, value)).map SortedMap.ofList := by
      simp [mapOf?, hentries]
    have hform : (∀ e ∈ entries, form e.2) ↔ IsMapOf IsTableOrDate form d := by
      simp only [IsMapOf, ← entries?_eq_some_iff, hentries, Option.some.injEq, exists_eq_left']
    rw [hread]
    refine ((yields_entries h entries).map fun l hl => ?_).congr hform fun _ htold => htold
    -- of two entries with one key both are read, but only the last is found
    refine ⟨entries, entries?_eq_some_iff.1 hentries, fun key => ?_⟩
    simp only [SortedMap.get?_ofList, hl, ← List.map_reverse, SortedMap.lookup_map_snd]

/-! ## Fields of records -/

/-- A field: its key, whether a record may lack it, and what may stand under the key. -/
structure FieldForm where
  key : String
  mayLack : Prop
  form : Document → Prop

namespace FieldForm

def required (key : String) (form : Document → Prop) : FieldForm := ⟨key, False, form⟩

def defaulted (key : String) (form : Document → Prop) : FieldForm := ⟨key, True, form⟩

/-- Null stands for a missing value. -/
def optional (key : String) (form : Document → Prop) : FieldForm := defaulted key (OrNull form)

def Fits (field : FieldForm) (given : Entries) : Prop :=
  match given.lookup field.key with
  | some d => field.form d
  | none => field.mayLack

end FieldForm

/-- The entries have no keys but those of the fields, and fit the fields. -/
structure IsRecord (fields : List FieldForm) (given : Entries) : Prop where
  known : ∀ e ∈ given, e.1 ∈ fields.map FieldForm.key
  fits : ∀ field ∈ fields, field.Fits given

def IsRecordOf (fields : List FieldForm) (d : Document) : Prop :=
  ∃ given, d = table given ∧ IsRecord fields given

/-- What is given under the key tells the value, and a missing value is the default. -/
def FieldTold (given : Entries) (key : String) (told : Document → α → Prop) (default a : α) :
    Prop :=
  match given.lookup key with
  | some d => told d a
  | none => a = default

def RecordTold (told : Entries → α → Prop) (d : Document) (a : α) : Prop :=
  ∃ given, d = table given ∧ told given a

section Readers

variable {f : Fields} {key : String} {told : Document → α → Prop}

theorem yields_required {write : α → Document} (key : String)
    (h : ∀ d, Yields (value? d) (form d) (Written write d)) :
    Yields (f.required key value?) ((FieldForm.required key form).Fits f.given)
      (fun a => f.given.lookup key = some (write a)) := by
  simp only [Fields.required, FieldForm.Fits, FieldForm.required]
  cases f.given.lookup key with
  | none => exact .none id
  | some d => exact (h d).congr Iff.rfl fun _ ha => congrArg some ha

theorem yields_withDefault (key : String) (default : α)
    (h : ∀ d, f.given.lookup key = some d → Yields (value? d) (form d) (told d)) :
    Yields (f.withDefault key default value?) ((FieldForm.defaulted key form).Fits f.given)
      (FieldTold f.given key told default) := by
  simp only [Fields.withDefault, FieldForm.Fits, FieldForm.defaulted]
  cases hgiven : f.given.lookup key with
  | none => exact .some trivial (by simp [FieldTold, hgiven])
  | some d => exact (h d hgiven).congr Iff.rfl fun _ ha => by simpa [FieldTold, hgiven] using ha

theorem yields_optional (key : String) (horder : f.inOrder = false)
    (h : ∀ d, Yields (value? d) (form d) (told d)) :
    Yields (f.optional key value?) ((FieldForm.optional key form).Fits f.given)
      (FieldTold f.given key (OptionTold told) none) := by
  have hread : f.optional key value? = f.withDefault key none (orNull? value?) := by
    simp [Fields.optional, Fields.withDefault, horder]
  rw [hread]
  exact yields_withDefault key none fun d _ => yields_orNull? (h d)

/-- A record is read from a table that has no keys but those of its fields and fits them. -/
theorem yields_record {dialect : Dialect} {keys : List String} {fields : List FieldForm}
    {read? : Fields → Option α} {told : Entries → α → Prop} {given : Entries}
    (hkeys : ∀ key, key ∈ keys ↔ key ∈ fields.map FieldForm.key)
    (hread : ∀ f : Fields, f.inOrder = false → f.given = given →
      Yields (read? f) (∀ field ∈ fields, field.Fits given) (told given)) :
    Yields ((fields? dialect true keys (table given)).bind read?) (IsRecord fields given)
      (told given) := by
  by_cases hknown : ∀ e ∈ given, e.1 ∈ keys
  · have hfields : fields? dialect true keys (table given) = some ⟨given, false⟩ := by
      simpa [fields?, entries?] using hknown
    rw [hfields]
    refine (hread ⟨given, false⟩ rfl rfl).congr ?_ fun _ ha => ha
    exact ⟨fun hfits => ⟨fun e he => (hkeys e.1).1 (hknown e he), hfits⟩, IsRecord.fits⟩
  · have hfields : fields? dialect true keys (table given) = none := by
      simpa [fields?, entries?] using hknown
    rw [hfields]
    apply Yields.none
    intro hrecord
    exact hknown fun e he => (hkeys e.1).2 (hrecord.known e he)

theorem yields_table {x : Option α} {fields : List FieldForm} {told : Entries → α → Prop}
    {given : Entries} (h : Yields x (IsRecord fields given) (told given)) :
    Yields x (IsRecordOf fields (table given)) (RecordTold told (table given)) := by
  refine h.congr ?_ fun a ha => ⟨given, rfl, ha⟩
  simp [IsRecordOf]

end Readers

end Document

end BuildRules
