import BuildRules.Document.Decode
import BuildRules.Proofs.Except

/-!
# Reading fields back

What is written for a value is read back as that value. The entries of a record are blocks of one
key each, and a field of the record depends only on the block of its key. Main statements:
`mapOf?_ofMap` for maps and, for the fields of records, the lemmas on `Fields.Gives`.
-/

namespace BuildRules.Document

variable {α : Type} {value? : Document → Option α} {write : α → Document}

/-! ## Numbers -/

theorem intBetween?_eq_some {low high n : Int} {d : Document}
    (h : d.intBetween? low high = some n) : low ≤ n ∧ n < high := by
  cases d with
  | int value =>
    simp only [intBetween?] at h
    split at h
    · next hvalue =>
      cases h
      exact hvalue
    · cases h
  | _ => cases h

theorem nat64?_lt {d : Document} {n : Nat} (h : d.nat64? = some n) : n < 18446744073709551616 := by
  obtain ⟨i, hi, rfl⟩ := Option.map_eq_some_iff.1 h
  have hbounds := intBetween?_eq_some hi
  omega

theorem nat64?_int {n : Nat} (h : n < 18446744073709551616) : (int n).nat64? = some n := by
  have hn : (n : Int) < 18446744073709551616 := by omega
  simp [nat64?, intBetween?, hn]

theorem ifSome_natCast {key : String} (value : Option Nat) :
    ifSome key (fun i : Int => int i) (do let n ← value; pure (n : Int)) =
      ifSome key (fun n : Nat => int n) value := by
  cases value <;> rfl

theorem textOrNull_eq_getD (value : Option String) :
    textOrNull value = (value.map text).getD null := by
  cases value <;> rfl

/-! ## Lists and maps -/

theorem listOf?_list {l : List α} (h : ∀ a ∈ l, value? (write a) = some a) :
    listOf? value? (list (l.map write)) = some l := by
  have hitems : (l.map write).mapM value? = some (l.map id) := by
    rw [List.mapM_map]
    exact mapM_eq_some_map h
  simpa [listOf?, list?] using hitems

@[simp] theorem texts?_texts (l : List String) : texts? (texts l) = some l :=
  listOf?_list fun _ _ => rfl

theorem mapOf?_ofMap {m : SortedMap String α} (h : ∀ e ∈ m.toList, value? (write e.2) = some e.2) :
    mapOf? value? (ofMap write m) = some m := by
  have hentries : (m.toList.map fun e => (e.1, write e.2)).mapM
      (fun e => (value? e.2).map fun value => (e.1, value)) = some (m.toList.map id) := by
    rw [List.mapM_map]
    exact mapM_eq_some_map fun e he => by simp [h e he]
  simp [mapOf?, ofMap, entries?, hentries]

/-! ## Keys of entries -/

section Keys

/-- No entry has a key other than the given ones. -/
def KeysIn (keys : List String) (entries : Entries) : Prop := ∀ e ∈ entries, e.1 ∈ keys

variable {keys keys' : List String} {key key' : String} {entries entries' : Entries}

theorem KeysIn.mono (h : KeysIn keys entries) (hsub : keys ⊆ keys') : KeysIn keys' entries :=
  fun e he => hsub (h e he)

theorem KeysIn.lookup_eq_none (h : KeysIn keys entries) (hkey : key ∉ keys) :
    entries.lookup key = none := by
  rw [List.lookup_eq_none_iff]
  intro e he
  have hne : key ≠ e.1 := fun heq => hkey (heq ▸ h e he)
  simpa using hne

@[simp] theorem keysIn_nil : KeysIn keys [] := nofun

@[simp] theorem keysIn_cons_iff {e : String × Document} :
    KeysIn keys (e :: entries) ↔ e.1 ∈ keys ∧ KeysIn keys entries :=
  List.forall_mem_cons

@[simp] theorem keysIn_append_iff :
    KeysIn keys (entries ++ entries') ↔ KeysIn keys entries ∧ KeysIn keys entries' :=
  List.forall_mem_append

@[simp] theorem keysIn_ifSome (value : Option α) (h : key ∈ keys) :
    KeysIn keys (ifSome key write value) := by
  cases value <;> simp [ifSome, h]

@[simp] theorem keysIn_unless {c : Prop} [Decidable c] (d : Document) (h : key ∈ keys) :
    KeysIn keys (if c then [] else [(key, d)]) := by
  split <;> simp [h]

@[simp] theorem keysIn_ifNonempty (values : List String) (h : key ∈ keys) :
    KeysIn keys (ifNonempty key values) :=
  keysIn_unless _ h

@[simp] theorem keysIn_ifEntries (m : SortedMap String α) (h : key ∈ keys) :
    KeysIn keys (ifEntries key write m) :=
  keysIn_unless _ h

@[simp] theorem lookup_ifSome_of_ne (value : Option α) (hne : key' ≠ key) :
    (ifSome key write value).lookup key' = none :=
  (keysIn_ifSome value (List.mem_singleton_self key)).lookup_eq_none (by simpa using hne)

@[simp] theorem lookup_unless_of_ne {c : Prop} [Decidable c] (d : Document) (hne : key' ≠ key) :
    (if c then [] else [(key, d)]).lookup key' = none :=
  (keysIn_unless d (List.mem_singleton_self key)).lookup_eq_none (by simpa using hne)

@[simp] theorem lookup_ifNonempty_of_ne (values : List String) (hne : key' ≠ key) :
    (ifNonempty key values).lookup key' = none :=
  lookup_unless_of_ne _ hne

@[simp] theorem lookup_ifEntries_of_ne (m : SortedMap String α) (hne : key' ≠ key) :
    (ifEntries key write m).lookup key' = none :=
  lookup_unless_of_ne _ hne

/-- A record is read from the table of its entries by reading fields that are not in order. -/
theorem bind_fields?_table {β : Type} {dialect : Dialect} {strict : Bool}
    {read? : Fields → Option β} {b : β} (hkeys : KeysIn keys entries)
    (hread : ∀ f : Fields, f.inOrder = false → f.given = entries → read? f = some b) :
    (fields? dialect strict keys (table entries)).bind read? = some b := by
  have hstrict : strict → ∀ e ∈ entries, e.1 ∈ keys := fun _ => hkeys
  simp only [fields?, entries?, Option.bind_some, if_pos hstrict]
  exact hread _ rfl rfl

end Keys

/-! ## Fields -/

namespace Fields

variable {f : Fields} {key : String} {default : α}

/-- Under a key the record gives what the block of entries gives. -/
def Gives (f : Fields) (key : String) (block : Entries) : Prop :=
  f.given.lookup key = block.lookup key

theorem Gives.absent (h : f.Gives key []) : f.withDefault key default value? = some default := by
  simp only [Gives, List.lookup_nil] at h
  simp [Fields.withDefault, h]

section

variable (value? : Document → Option α)

theorem Gives.required {d : Document} {a : α} (h : f.Gives key [(key, d)])
    (hread : value? d = some a) : f.required key value? = some a := by
  simp only [Gives, List.lookup_cons, beq_self_eq_true] at h
  simp [Fields.required, h, hread]

theorem Gives.withDefault {d : Document} {a : α} (h : f.Gives key [(key, d)])
    (hread : value? d = some a) : f.withDefault key default value? = some a := by
  simp only [Gives, List.lookup_cons, beq_self_eq_true] at h
  simp [Fields.withDefault, h, hread]

theorem Gives.optional {value : Option α} (h : f.Gives key (ifSome key write value))
    (horder : f.inOrder = false) (hread : ∀ a ∈ value, orNull? value? (write a) = some (some a)) :
    f.optional key value? = some value := by
  cases value with
  | none =>
    simp only [Gives, ifSome, List.lookup_nil] at h
    simp [Fields.optional, h, horder]
  | some a =>
    simp only [Gives, ifSome, List.lookup_cons, beq_self_eq_true] at h
    simp [Fields.optional, h, hread]

/-- An absent value may also be written as null. -/
theorem Gives.orNull {value : Option α} (h : f.Gives key [(key, (value.map write).getD null)])
    (hread : ∀ a ∈ value, orNull? value? (write a) = some (some a)) :
    f.optional key value? = some value := by
  simp only [Gives, List.lookup_cons, beq_self_eq_true] at h
  cases value with
  | none => simp [Fields.optional, h, orNull?]
  | some a => simp [Fields.optional, h, hread]

theorem Gives.items {l : List α}
    (h : f.Gives key (if l.isEmpty then [] else [(key, .list (l.map write))]))
    (hread : ∀ a ∈ l, value? (write a) = some a) :
    f.withDefault key [] (listOf? value?) = some l := by
  split at h
  -- what is left out when it is empty is read as the default, which is empty
  · next hempty => rw [h.absent, List.isEmpty_iff.1 hempty]
  · exact h.withDefault _ (listOf?_list hread)

theorem Gives.map {m : SortedMap String α} (h : f.Gives key (ifEntries key write m))
    (hread : ∀ e ∈ m.toList, value? (write e.2) = some e.2) :
    f.withDefault key ∅ (mapOf? value?) = some m := by
  unfold ifEntries at h
  split at h
  · next hempty => rw [h.absent, SortedMap.isEmpty_iff.1 hempty]
  · exact h.withDefault _ (mapOf?_ofMap hread)

end

theorem Gives.textOrNull {value : Option String} (h : f.Gives key [(key, .textOrNull value)]) :
    f.optional key text? = some value := by
  rw [textOrNull_eq_getD] at h
  exact h.orNull text? fun _ _ => rfl

theorem Gives.texts {values : List String} (h : f.Gives key (ifNonempty key values)) :
    f.withDefault key [] texts? = some values :=
  h.items text? fun _ _ => rfl

end Fields

/-! ## What holds of the values that are read -/

section

variable {P : α → Prop} (hvalue : ∀ d a, value? d = some a → P a)
include hvalue

theorem forall_of_mapOf? {d : Document} {m : SortedMap String α} (h : mapOf? value? d = some m) :
    ∀ e ∈ m.toList, P e.2 := by
  obtain ⟨entries, -, hread⟩ := Option.bind_eq_some_iff.1 h
  obtain ⟨l, hl, rfl⟩ := Option.map_eq_some_iff.1 hread
  intro e he
  obtain ⟨entry, -, hentry⟩ := mem_of_mapM_eq_some hl (SortedMap.mem_of_mem_ofList he)
  obtain ⟨a, ha, rfl⟩ := Option.map_eq_some_iff.1 hentry
  exact hvalue entry.2 a ha

theorem Fields.of_withDefault {f : Fields} {key : String} {default a : α} (hdefault : P default)
    (h : f.withDefault key default value? = some a) : P a := by
  unfold withDefault at h
  split at h
  · exact hvalue _ a h
  · cases h
    exact hdefault

theorem Fields.forall_of_optional {f : Fields} {key : String} {value : Option α}
    (h : f.optional key value? = some value) : ∀ a ∈ value, P a := by
  unfold optional orNull? at h
  split at h
  · split at h
    · cases h
      nofun
    · obtain ⟨a, ha, rfl⟩ := Option.map_eq_some_iff.1 h
      intro b hb
      cases hb
      exact hvalue _ a ha
  · split at h
    · cases h
    · cases h
      nofun

end

end BuildRules.Document
