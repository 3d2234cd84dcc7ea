import BuildRules.Proofs.Configuration.Layers

/-!
# Filled settings

Filling settings from defaults puts one layer over another. Layers keep their places, so it does not
matter which two of them are put together first, and a layer that is put under others a second time
adds nothing. Main statement: `fill_lawful`.
-/

namespace BuildRules

namespace Settings

/-! ## Layers put together -/

/-- Settings are equal that have the same in each field. -/
theorem eq_of_fields {a b : Settings} (hplatform : a.defaultPlatform = b.defaultPlatform)
    (hhost : a.hostPlatform = b.hostPlatform) (hjobs : a.jobs = b.jobs)
    (hextra : a.extraFlags = b.extraFlags) (hflags : a.flags = b.flags) : a = b := by
  cases a
  cases b
  congr

theorem fill_assoc (a b c : Settings) : (a.fill b).fill c = a.fill (b.fill c) := by
  apply eq_of_fields
  · exact Option.or_assoc
  · exact Option.or_assoc
  · exact Option.or_assoc
  · by_cases h : a.extraFlags.isEmpty <;> simp only [fill, h, if_true, if_false, Bool.false_eq_true]
  · exact (SortedMap.override_assoc c.flags b.flags a.flags).symm

theorem fill_empty (a : Settings) : a.fill {} = a := by
  apply eq_of_fields
  · exact Option.or_none
  · exact Option.or_none
  · exact Option.or_none
  · cases h : a.extraFlags <;> simp [fill, h]
  · exact SortedMap.empty_override a.flags

theorem empty_fill (a : Settings) : fill {} a = a := rfl

theorem fill_self (a : Settings) : a.fill a = a := by
  apply eq_of_fields
  · exact Option.or_self
  · exact Option.or_self
  · exact Option.or_self
  · exact ite_self a.extraFlags
  · exact SortedMap.override_self a.flags

/-! ## Flags -/

theorem get?_flags_fill (a b : Settings) (name : String) :
    (a.fill b).flags.get? name = (a.flags.get? name).or (b.flags.get? name) :=
  SortedMap.get?_override b.flags a.flags name

theorem mem_keys_flags_fill_iff {a b : Settings} {name : String} :
    name ∈ (a.fill b).flags.keys ↔ name ∈ a.flags.keys ∨ name ∈ b.flags.keys := by
  simp only [← SortedMap.contains_iff_mem_keys, fill, SortedMap.contains_override, Bool.or_eq_true]

/-- Settings with filling are layers: they can be put together in any order that keeps their places,
the empty ones change nothing wherever they are put, and the same defaults are filled in but once.
Settings that are accepted make settings that are accepted, and of the flags of both every one is
there, those of the upper layer with their values. -/
theorem fill_lawful (a b c : Settings) :
    (a.fill b).fill c = a.fill (b.fill c) ∧
      a.fill {} = a ∧
      fill {} a = a ∧
      (a.fill b).fill b = a.fill b ∧
      (∀ sectionName, a.validate sectionName = .ok () → b.validate sectionName = .ok () →
        (a.fill b).validate sectionName = .ok ()) ∧
      (∀ name value, a.flags.get? name = some value →
        (a.fill b).flags.get? name = some value) ∧
      ∀ name, name ∈ (a.fill b).flags.keys ↔ name ∈ a.flags.keys ∨ name ∈ b.flags.keys := by
  refine ⟨fill_assoc a b c, fill_empty a, empty_fill a, ?_, ?_, ?_, ?_⟩
  · rw [fill_assoc, fill_self]
  · intro sectionName ha hb
    rw [validate_eq_ok_iff] at ha hb ⊢
    exact ha.fill hb
  · intro name value hvalue
    rw [get?_flags_fill, hvalue, Option.some_or]
  · exact fun name => mem_keys_flags_fill_iff

end Settings

end BuildRules
