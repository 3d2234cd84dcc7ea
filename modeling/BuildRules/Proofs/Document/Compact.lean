import BuildRules.Document.Json

/-!
# Compact text is unambiguous

The compact form of a document without numbers and dates tells the document, even if more text
follows: nothing that is written for one such document begins with what is written for another.
Main statement: `compact_inj`.
-/

namespace BuildRules

namespace Json

/-! ## Strings and sequences -/

section

variable {α : Type} {write : α → List Char} {stop : Char} {a b : α} {l m : List α}
  {x y : List Char}

/-- What is written for an item of `l` and one of `m` is told apart, whatever follows, and none of
it begins with `stop`. -/
structure Apart (write : α → List Char) (stop : Char) (l m : List α) : Prop where
  cancel : ∀ a ∈ l, ∀ b ∈ m, ∀ x y, write a ++ x = write b ++ y → a = b ∧ x = y
  left : ∀ a ∈ l, ∀ x y, write a ++ x ≠ stop :: y
  right : ∀ b ∈ m, ∀ x y, write b ++ x ≠ stop :: y

theorem Apart.head (h : Apart write stop (a :: l) (b :: m)) (heq : write a ++ x = write b ++ y) :
    a = b ∧ x = y :=
  h.cancel a List.mem_cons_self b List.mem_cons_self x y heq

theorem Apart.tail (h : Apart write stop (a :: l) (b :: m)) : Apart write stop l m where
  cancel a ha b hb := h.cancel a (List.mem_cons_of_mem _ ha) b (List.mem_cons_of_mem _ hb)
  left a ha := h.left a (List.mem_cons_of_mem _ ha)
  right b hb := h.right b (List.mem_cons_of_mem _ hb)

theorem Apart.left_ne (h : Apart write stop (a :: l) m) : write a ++ x ≠ stop :: y :=
  h.left a List.mem_cons_self x y

theorem Apart.right_ne (h : Apart write stop l (b :: m)) : stop :: y ≠ write b ++ x :=
  (h.right b List.mem_cons_self x y).symm

/-- With a comma before each item they are still apart, if `stop` is no comma. -/
theorem Apart.comma (h : Apart write stop l m) (hstop : stop ≠ ',') :
    Apart (fun a => ',' :: write a) stop l m where
  cancel a ha b hb x y heq := h.cancel a ha b hb x y (List.cons.inj heq).2
  left := by simp [hstop.symm]
  right := by simp [hstop.symm]

/-- Items that are apart are read off one by one, up to `stop`. -/
theorem Apart.flatMap_cancel (h : Apart write stop l m)
    (heq : l.flatMap write ++ stop :: x = m.flatMap write ++ stop :: y) : l = m ∧ x = y := by
  induction l generalizing m with
  | nil =>
    cases m with
    | nil => simpa using heq
    | cons b m => exact absurd (by simpa using heq) h.right_ne
  | cons a l ih =>
    cases m with
    | nil => exact absurd (by simpa using heq) h.left_ne
    | cons b m =>
      simp only [List.flatMap_cons, List.append_assoc] at heq
      obtain ⟨rfl, hrest⟩ := h.head heq
      obtain ⟨rfl, rfl⟩ := ih h.tail hrest
      exact ⟨rfl, rfl⟩

theorem intercalate_cons (a : α) (l : List α) :
    [','].intercalate ((a :: l).map write) = write a ++ l.flatMap fun b => ',' :: write b := by
  induction l generalizing a with
  | nil => simp
  | cons b l ih => simpa [List.intercalate_cons_cons] using ih b

/-- So they are with commas between them. -/
theorem Apart.intercalate_cancel (h : Apart write stop l m) (hstop : stop ≠ ',')
    (heq : [','].intercalate (l.map write) ++ stop :: x =
      [','].intercalate (m.map write) ++ stop :: y) : l = m ∧ x = y := by
  cases l with
  | nil =>
    cases m with
    | nil => simpa using heq
    | cons b m =>
      rw [intercalate_cons, List.append_assoc] at heq
      exact absurd heq h.right_ne
  | cons a l =>
    cases m with
    | nil =>
      rw [intercalate_cons, List.append_assoc] at heq
      exact absurd heq h.left_ne
    | cons b m =>
      rw [intercalate_cons, intercalate_cons, List.append_assoc, List.append_assoc] at heq
      obtain ⟨rfl, hrest⟩ := h.head heq
      obtain ⟨rfl, rfl⟩ := (h.tail.comma hstop).flatMap_cancel hrest
      exact ⟨rfl, rfl⟩

end

theorem escapeChar_cancel {c d : Char} {x y : List Char}
    (h : escapeChar c ++ x = escapeChar d ++ y) : c = d ∧ x = y := by
  have hread := unescape?_escapeChar c x
  rw [h, unescape?_escapeChar] at hread
  simpa [eq_comm] using hread

theorem escapeChar_ne_quote (c : Char) (x y : List Char) : escapeChar c ++ x ≠ '"' :: y := by
  intro h
  have hread := unescape?_escapeChar c x
  rw [h] at hread
  cases hread

theorem quoted_cancel {s t : String} {x y : List Char} (h : quoted s ++ x = quoted t ++ y) :
    s = t ∧ x = y := by
  have hapart : Apart escapeChar '"' s.toList t.toList :=
    ⟨fun _ _ _ _ _ _ => escapeChar_cancel, fun c _ => escapeChar_ne_quote c,
      fun c _ => escapeChar_ne_quote c⟩
  rw [← String.toList_inj]
  exact hapart.flatMap_cancel (by simpa [quoted] using h)

theorem quoted_ne {s : String} {c : Char} (hc : c ≠ '"') (x y : List Char) :
    quoted s ++ x ≠ c :: y := by
  simp [quoted, hc.symm]

/-! ## Lists and tables -/

/-- An entry of a table as it is written. -/
def compactEntry (entry : String × Document) : List Char :=
  quoted entry.1 ++ ':' :: compactChars entry.2

theorem compactEntry_cancel {a b : String × Document} {x y : List Char}
    (hvalue : compactChars a.2 ++ x = compactChars b.2 ++ y → a.2 = b.2 ∧ x = y)
    (h : compactEntry a ++ x = compactEntry b ++ y) : a = b ∧ x = y := by
  simp only [compactEntry, List.append_assoc, List.cons_append] at h
  obtain ⟨hkey, hrest⟩ := quoted_cancel h
  obtain ⟨heq, hend⟩ := hvalue (List.cons.inj hrest).2
  exact ⟨Prod.ext hkey heq, hend⟩

theorem compactEntry_ne_brace (entry : String × Document) (x y : List Char) :
    compactEntry entry ++ x ≠ '\x7d' :: y := by
  simp [compactEntry, quoted]

theorem compactItems_eq (items : List Document) :
    compactItems items = [','].intercalate (items.map compactChars) := by
  induction items with
  | nil => rfl
  | cons item items ih =>
    cases items with
    | nil => simp [compactItems]
    | cons next items => simp [compactItems, ih, List.intercalate_cons_cons]

theorem compactEntries_eq (entries : List (String × Document)) :
    compactEntries entries = [','].intercalate (entries.map compactEntry) := by
  induction entries with
  | nil => rfl
  | cons entry entries ih =>
    cases entries with
    | nil => simp [compactEntries, compactEntry]
    | cons next entries => simp [compactEntries, compactEntry, ih, List.intercalate_cons_cons]

end Json

namespace Document

open Json

/-! ## Plain documents -/

/-- There are no numbers and no dates in a document. Numbers are followed by nothing that ends them,
and dates are written like texts. -/
inductive IsPlain : Document → Prop
  | null : IsPlain null
  | bool (value : Bool) : IsPlain (bool value)
  | text (value : String) : IsPlain (text value)
  | list {items : List Document} : (∀ item ∈ items, IsPlain item) → IsPlain (list items)
  | table {entries : List (String × Document)} : (∀ entry ∈ entries, IsPlain entry.2) →
      IsPlain (table entries)

theorem IsPlain.ne_bracket {d : Document} (h : d.IsPlain) (x y : List Char) :
    compactChars d ++ x ≠ ']' :: y := by
  cases h with
  | bool value => cases value <;> simp [compactChars]
  | text value => exact quoted_ne (by decide) x y
  | _ => simp [compactChars]

/-- What is written for a plain document tells the document, whatever follows. -/
theorem IsPlain.cancel {d e : Document} (hd : d.IsPlain) (he : e.IsPlain) {x y : List Char}
    (h : compactChars d ++ x = compactChars e ++ y) : d = e ∧ x = y := by
  induction hd generalizing e x y with
  | null =>
    cases he with
    | null => simpa [compactChars] using h
    | bool value => cases value <;> simp [compactChars] at h
    | _ => simp [compactChars, quoted] at h
  | bool value =>
    cases he with
    | bool value' => cases value <;> cases value' <;> simp [compactChars] at h ⊢ <;> exact h
    | _ => cases value <;> simp [compactChars, quoted] at h
  | text value =>
    cases he with
    | text value' => simpa using quoted_cancel h
    | bool value' => cases value' <;> simp [compactChars, quoted] at h
    | _ => simp [compactChars, quoted] at h
  | list hitems ih =>
    cases he with
    | list hitems' =>
      simp only [compactChars, compactItems_eq, List.cons_append, List.append_assoc,
        List.nil_append, List.cons.injEq, true_and] at h
      have hapart : Apart compactChars ']' _ _ :=
        ⟨fun a ha b hb x y => ih a ha (hitems' b hb), fun a ha => (hitems a ha).ne_bracket,
          fun b hb => (hitems' b hb).ne_bracket⟩
      simpa using hapart.intercalate_cancel (by decide) h
    | bool value' => cases value' <;> simp [compactChars] at h
    | _ => simp [compactChars, quoted] at h
  | table hentries ih =>
    cases he with
    | table hentries' =>
      simp only [compactChars, compactEntries_eq, List.cons_append, List.append_assoc,
        List.nil_append, List.cons.injEq, true_and] at h
      have hapart : Apart compactEntry '\x7d' _ _ :=
        ⟨fun a ha b hb x y => compactEntry_cancel (ih a ha (hentries' b hb)),
          fun a _ => compactEntry_ne_brace a, fun b _ => compactEntry_ne_brace b⟩
      simpa using hapart.intercalate_cancel (by decide) h
    | bool value' => cases value' <;> simp [compactChars] at h
    | _ => simp [compactChars, quoted] at h

theorem compact_inj {d e : Document} (hd : d.IsPlain) (he : e.IsPlain) :
    d.compact = e.compact ↔ d = e := by
  refine ⟨fun h => ?_, fun h => by rw [h]⟩
  have hchars : compactChars d = compactChars e := String.ofList_inj.1 h
  exact (hd.cancel he (congrArg (· ++ []) hchars)).1

end Document

end BuildRules
