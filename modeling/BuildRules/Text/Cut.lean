/-!
# Cutting text

Text cut at the first or the last place of a character. Main statements: the two parts and the
character between them give the text back, and the first part of the one and the last part of the
other do not hold the character (`cutFirst?_eq_some_iff`, `cutLast?_eq_some_iff`).
-/

namespace BuildRules.Text

/-- The characters before and after the first `c`. -/
def cutCharsFirst? (c : Char) : List Char → Option (List Char × List Char)
  | [] => none
  | x :: rest =>
    if x = c then some ([], rest) else (cutCharsFirst? c rest).map fun p => (x :: p.1, p.2)

/-- The characters before and after the last `c`. -/
def cutCharsLast? (c : Char) : List Char → Option (List Char × List Char)
  | [] => none
  | x :: rest =>
    match cutCharsLast? c rest with
    | some p => some (x :: p.1, p.2)
    | none => if x = c then some ([], rest) else none

theorem cutCharsFirst?_eq_none_iff {c : Char} {l : List Char} :
    cutCharsFirst? c l = none ↔ c ∉ l := by
  induction l with
  | nil => simp [cutCharsFirst?]
  | cons x rest ih =>
    rw [cutCharsFirst?]
    by_cases h : x = c
    · simp [h]
    · simp [h, Ne.symm h, ih]

theorem cutCharsFirst?_eq_some_iff {c : Char} {l a b : List Char} :
    cutCharsFirst? c l = some (a, b) ↔ l = a ++ c :: b ∧ c ∉ a := by
  induction l generalizing a with
  | nil => simp [cutCharsFirst?]
  | cons x rest ih =>
    rw [cutCharsFirst?]
    split
    · next h =>
      subst h
      cases a with
      | nil => simp [eq_comm]
      | cons y a =>
        simp only [Option.some.injEq, Prod.mk.injEq, List.cons_append, List.cons.injEq,
          List.mem_cons, not_or]
        exact ⟨fun h => by simp at h, fun h => absurd h.1.1 h.2.1⟩
    · next h =>
      cases a with
      | nil => simp [h]
      | cons y a =>
        simp only [Option.map_eq_some_iff, Prod.exists, Prod.mk.injEq, List.cons.injEq,
          List.cons_append, List.mem_cons, not_or]
        constructor
        · rintro ⟨a', b', hab, ⟨rfl, rfl⟩, rfl⟩
          obtain ⟨rfl, hc⟩ := ih.1 hab
          exact ⟨⟨rfl, rfl⟩, Ne.symm h, hc⟩
        · rintro ⟨⟨rfl, hrest⟩, _, hc⟩
          exact ⟨a, b, ih.2 ⟨hrest, hc⟩, ⟨rfl, rfl⟩, rfl⟩

theorem cutCharsLast?_eq_none_iff {c : Char} {l : List Char} :
    cutCharsLast? c l = none ↔ c ∉ l := by
  induction l with
  | nil => simp [cutCharsLast?]
  | cons x rest ih =>
    rw [cutCharsLast?, List.mem_cons, not_or]
    split
    · next h =>
      have : c ∈ rest := Classical.byContradiction fun hc => by simp [ih.2 hc] at h
      simp [this]
    · next h => by_cases hx : x = c <;> simp [hx, Ne.symm, eq_comm, ih.1 h]

theorem cutCharsLast?_eq_some_iff {c : Char} {l a b : List Char} :
    cutCharsLast? c l = some (a, b) ↔ l = a ++ c :: b ∧ c ∉ b := by
  induction l generalizing a b with
  | nil => simp [cutCharsLast?]
  | cons x rest ih =>
    rw [cutCharsLast?]
    split
    · next p hp =>
      obtain ⟨a', b'⟩ := p
      obtain ⟨rfl, hb'⟩ := ih.1 hp
      cases a with
      | nil =>
        simp only [Option.some.injEq, Prod.mk.injEq, List.nil_append, List.cons.injEq]
        refine ⟨fun h => by simp at h, fun h => ?_⟩
        obtain ⟨⟨_, rfl⟩, hc⟩ := h
        simp at hc
      | cons y a =>
        have : cutCharsLast? c (a' ++ c :: b') = some (a, b) ↔ _ := ih (a := a)
        rw [hp] at this
        simp only [Option.some.injEq, Prod.mk.injEq, List.cons.injEq, List.cons_append] at this ⊢
        rw [and_assoc, this, and_assoc]
    · next h =>
      have hc := cutCharsLast?_eq_none_iff.1 h
      cases a with
      | nil =>
        split
        · next hx =>
          subst hx
          simp only [Option.some.injEq, Prod.mk.injEq, true_and, List.nil_append, List.cons.injEq]
          exact ⟨fun h => h ▸ ⟨rfl, hc⟩, fun h => h.1⟩
        · next hx => simp [hx]
      | cons y a =>
        refine ⟨fun h => by split at h <;> simp at h, fun h => ?_⟩
        rw [List.cons_append, List.cons.injEq] at h
        exact absurd (h.1.2 ▸ by simp) hc

/-- The parts of a text before and after the first `c`. -/
def cutFirst? (c : Char) (s : String) : Option (String × String) :=
  (cutCharsFirst? c s.toList).map fun p => (String.ofList p.1, String.ofList p.2)

/-- The parts of a text before and after the last `c`. -/
def cutLast? (c : Char) (s : String) : Option (String × String) :=
  (cutCharsLast? c s.toList).map fun p => (String.ofList p.1, String.ofList p.2)

theorem cutFirst?_eq_none_iff {c : Char} {s : String} : cutFirst? c s = none ↔ c ∉ s.toList := by
  rw [cutFirst?, Option.map_eq_none_iff, cutCharsFirst?_eq_none_iff]

theorem cutFirst?_eq_some_iff {c : Char} {s a b : String} :
    cutFirst? c s = some (a, b) ↔ s.toList = a.toList ++ c :: b.toList ∧ c ∉ a.toList := by
  simp only [cutFirst?, Option.map_eq_some_iff, Prod.exists, Prod.mk.injEq,
    cutCharsFirst?_eq_some_iff]
  constructor
  · rintro ⟨a', b', hsplit, rfl, rfl⟩
    simpa using hsplit
  · intro hsplit
    exact ⟨a.toList, b.toList, hsplit, by simp, by simp⟩

theorem cutLast?_eq_none_iff {c : Char} {s : String} : cutLast? c s = none ↔ c ∉ s.toList := by
  rw [cutLast?, Option.map_eq_none_iff, cutCharsLast?_eq_none_iff]

theorem cutLast?_eq_some_iff {c : Char} {s a b : String} :
    cutLast? c s = some (a, b) ↔ s.toList = a.toList ++ c :: b.toList ∧ c ∉ b.toList := by
  simp only [cutLast?, Option.map_eq_some_iff, Prod.exists, Prod.mk.injEq,
    cutCharsLast?_eq_some_iff]
  constructor
  · rintro ⟨a', b', hsplit, rfl, rfl⟩
    simpa using hsplit
  · intro hsplit
    exact ⟨a.toList, b.toList, hsplit, by simp, by simp⟩

/-- The rest of a text that begins with `start`. -/
def dropStart? (start s : String) : Option String :=
  if start.toList <+: s.toList then some (String.ofList (s.toList.drop start.toList.length))
  else none

theorem dropStart?_eq_some_iff {start s rest : String} :
    dropStart? start s = some rest ↔ s = start ++ rest := by
  unfold dropStart?
  rw [← String.toList_inj, String.toList_append]
  split
  · next hstart =>
    obtain ⟨l, hl⟩ := hstart
    rw [← hl, List.drop_left, Option.some.injEq, List.append_cancel_left_eq, ← String.toList_inj,
      String.toList_ofList]
  · next hstart =>
    simp only [reduceCtorEq, false_iff]
    intro heq
    exact hstart ⟨rest.toList, heq.symm⟩

/-- The text before a last character `c`. -/
def dropLast? (c : Char) (s : String) : Option String :=
  if s.toList.getLast? = some c then some (String.ofList s.toList.dropLast) else none

theorem dropLast?_eq_some_iff {c : Char} {s rest : String} :
    dropLast? c s = some rest ↔ s = rest.push c := by
  unfold dropLast?
  rw [← String.toList_inj, String.toList_push]
  split
  · next hlast =>
    obtain ⟨l, hl⟩ := List.getLast?_eq_some_iff.1 hlast
    rw [hl, List.dropLast_concat, Option.some.injEq, List.append_cancel_right_eq,
      ← String.toList_inj, String.toList_ofList]
  · next hlast =>
    simp only [reduceCtorEq, false_iff]
    intro heq
    exact hlast (by simp [heq])

/-- Whether two slashes in a row occur. -/
def hasDoubleSlash : List Char → Bool
  | '/' :: '/' :: _ => true
  | _ :: rest => hasDoubleSlash rest
  | [] => false

theorem hasDoubleSlash_iff {l : List Char} : hasDoubleSlash l ↔ ['/', '/'] <:+: l := by
  fun_induction hasDoubleSlash l with
  | case1 rest => exact iff_of_true rfl ⟨[], rest, rfl⟩
  | case2 x rest hx ih =>
    rw [ih, List.infix_cons_iff]
    constructor
    · exact .inr
    · rintro (hstart | hrest)
      · obtain ⟨l, hl⟩ := hstart
        obtain ⟨rfl, rfl⟩ := List.cons.inj hl
        exact absurd rfl (hx _ rfl)
      · exact hrest
  | case3 => simp

end BuildRules.Text
