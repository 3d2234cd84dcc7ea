/-!
# Postconditions of runs that can fail

A run keeps to a pair of postconditions, one for its value and one for what it stops with. Main
statements: `Meets.bind` and, for a loop with an invariant, `Meets.foldlM`. A run of two parts is
taken apart by `bind_eq_ok_iff` and `bind_eq_error_iff`, and a run over the items of a list by
`forM_eq_ok_iff`, `mapM_eq_some_map` and `mem_of_mapM_eq_some`.
-/

namespace BuildRules

/-- The value of the run satisfies `ok`, or what it stops with satisfies `stop`. -/
def Meets {ε α : Type} (x : Except ε α) (ok : α → Prop) (stop : ε → Prop) : Prop :=
  match x with
  | .ok a => ok a
  | .error e => stop e

section

variable {ε α β : Type} {stop : ε → Prop}

@[simp] theorem meets_ok {ok : α → Prop} {a : α} : Meets (.ok a) ok stop ↔ ok a := Iff.rfl

@[simp] theorem meets_pure {ok : α → Prop} {a : α} :
    Meets (pure a : Except ε α) ok stop ↔ ok a := Iff.rfl

@[simp] theorem meets_error {ok : α → Prop} {e : ε} : Meets (.error e) ok stop ↔ stop e := Iff.rfl

theorem Meets.mono {x : Except ε α} {ok ok' : α → Prop} {stop' : ε → Prop} (h : Meets x ok stop)
    (hok : ∀ a, ok a → ok' a) (hstop : ∀ e, stop e → stop' e) : Meets x ok' stop' := by
  cases x with
  | ok a => exact hok a h
  | error e => exact hstop e h

/-- What holds of the value of a run may be found out apart. -/
theorem Meets.and_of_ok {x : Except ε α} {ok ok' : α → Prop} (h : Meets x ok stop)
    (hok : ∀ a, x = .ok a → ok' a) : Meets x (fun a => ok a ∧ ok' a) stop := by
  cases x with
  | ok a => exact ⟨h, hok a rfl⟩
  | error e => exact h

theorem Meets.bind {x : Except ε α} {f : α → Except ε β} {ok : α → Prop} {ok' : β → Prop}
    (h : Meets x ok stop) (hf : ∀ a, ok a → Meets (f a) ok' stop) : Meets (x >>= f) ok' stop := by
  cases x with
  | ok a => exact hf a h
  | error e => exact h

theorem Meets.ne_error {x : Except ε α} {ok : α → Prop} {e : ε} (h : Meets x ok stop)
    (he : ¬ stop e) : x ≠ .error e := by
  rintro rfl
  exact he h

/-- What follows a run depends only on the values that the run can have. -/
theorem Meets.bind_congr {x : Except ε α} {f f' : α → Except ε β} {ok : α → Prop}
    (h : Meets x ok stop) (hf : ∀ a, ok a → f a = f' a) : x >>= f = x >>= f' := by
  cases x with
  | ok a => exact hf a h
  | error e => rfl

/-- A loop keeps an invariant that tells of the items it has been through. -/
theorem Meets.foldlM {f : β → α → Except ε β} {l : List α} {b : β} (inv : List α → β → Prop)
    (hinit : inv [] b)
    (hstep : ∀ past a rest b, l = past ++ a :: rest → inv past b →
      Meets (f b a) (inv (past ++ [a])) stop) :
    Meets (l.foldlM f b) (inv l) stop := by
  have hrest : ∀ rest past b, l = past ++ rest → inv past b →
      Meets (rest.foldlM f b) (inv l) stop := by
    intro rest
    induction rest with
    | nil =>
      intro past b hl hb
      rw [List.append_nil] at hl
      rw [hl]
      exact hb
    | cons a rest ih =>
      intro past b hl hb
      rw [List.foldlM_cons]
      exact (hstep past a rest b hl hb).bind fun b' hb' => ih (past ++ [a]) b' (by simp [hl]) hb'
  exact hrest l [] b rfl hinit

end

section

variable {ε α β : Type} {x : Except ε α} {f : α → Except ε β}

theorem bind_eq_ok_iff {b : β} : x >>= f = .ok b ↔ ∃ a, x = .ok a ∧ f a = .ok b := by
  cases x <;> simp [bind, Except.bind]

theorem bind_eq_error_iff {e : ε} :
    x >>= f = .error e ↔ x = .error e ∨ ∃ a, x = .ok a ∧ f a = .error e := by
  cases x <;> simp [bind, Except.bind]

end

/-- A check of every item of a list passes where it passes at each of them. -/
theorem forM_eq_ok_iff {ε α : Type} {f : α → Except ε Unit} {l : List α} :
    l.forM f = .ok () ↔ ∀ a ∈ l, f a = .ok () := by
  induction l with
  | nil => exact iff_of_true rfl nofun
  | cons a rest ih =>
    rw [List.forM, bind_eq_ok_iff, List.forall_mem_cons, ← ih]
    exact ⟨fun ⟨_, hfirst, hrest⟩ => ⟨hfirst, hrest⟩, fun ⟨hfirst, hrest⟩ => ⟨(), hfirst, hrest⟩⟩

/-- A loop depends on its body only at the items it goes through. -/
theorem foldlM_congr {ε α β : Type} {f f' : β → α → Except ε β} {l : List α}
    (h : ∀ b, ∀ a ∈ l, f b a = f' b a) (b : β) : l.foldlM f b = l.foldlM f' b := by
  induction l generalizing b with
  | nil => rfl
  | cons a rest ih =>
    have hrest := fun b => ih (fun b a ha => h b a (List.mem_cons_of_mem _ ha)) b
    simp only [List.foldlM_cons, h b a List.mem_cons_self, hrest]

/-- A step that fails at no item of a list is a map of the list. -/
theorem mapM_eq_some_map {α β : Type} {f : α → Option β} {f' : α → β} {l : List α}
    (h : ∀ a ∈ l, f a = some (f' a)) : l.mapM f = some (l.map f') := by
  induction l with
  | nil => rfl
  | cons a rest ih =>
    have hrest := ih fun a ha => h a (List.mem_cons_of_mem _ ha)
    rw [List.mapM_cons, h a List.mem_cons_self, hrest]
    rfl

/-- What comes out of a step at each item of a list comes out of it at one of them. -/
theorem mem_of_mapM_eq_some {α β : Type} {f : α → Option β} {l : List α} {l' : List β} {b : β}
    (h : l.mapM f = some l') (hb : b ∈ l') : ∃ a ∈ l, f a = some b := by
  induction l generalizing l' with
  | nil =>
    cases h
    cases hb
  | cons a rest ih =>
    rw [List.mapM_cons] at h
    obtain ⟨b', hb', h⟩ := Option.bind_eq_some_iff.1 h
    obtain ⟨rest', hrest', h⟩ := Option.bind_eq_some_iff.1 h
    cases h
    rcases List.mem_cons.1 hb with rfl | hb
    · exact ⟨a, List.mem_cons_self, hb'⟩
    · obtain ⟨c, hc, heq⟩ := ih hrest' hb
      exact ⟨c, List.mem_cons_of_mem _ hc, heq⟩

end BuildRules
