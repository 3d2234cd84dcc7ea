import BuildRules.Platform
import BuildRules.Proofs.Except

/-!
# Names of platforms

Which platform a text names, said of the text itself: a label, in which two slashes stand together,
names the platform after its last colon, and any other text is the name of a platform. The name of a
platform is read as that platform, unless it looks like a label itself. Main statements:
`ofLabel_meets` and `NamedBy.ofLabel_text_iff`.
-/

namespace BuildRules

namespace Platform

/-- A text is a label if two slashes stand together in it. -/
def IsLabel (text : String) : Prop := ['/', '/'] <:+: text.toList

/-- A text names a platform. -/
structure NamedBy (text : String) (p : Platform) : Prop where
  name : IsName p.text
  bare : ¬ IsLabel text → text = p.text
  label : IsLabel text →
    ∃ place : String, text.toList = place.toList ++ ':' :: p.text.toList ∧ ':' ∉ p.text.toList

/-- A text names one platform. -/
theorem NamedBy.unique {text : String} {p q : Platform} (hp : NamedBy text p)
    (hq : NamedBy text q) : p = q := by
  obtain ⟨p⟩ := p
  obtain ⟨q⟩ := q
  congr
  by_cases hlabel : IsLabel text
  · -- both names stand after the last colon
    obtain ⟨place, hplace⟩ := hp.label hlabel
    obtain ⟨place', hplace'⟩ := hq.label hlabel
    have hcut := Text.cutLast?_eq_some_iff.2 hplace
    rw [Text.cutLast?_eq_some_iff.2 hplace'] at hcut
    cases hcut
    rfl
  · exact (hp.bare hlabel).symm.trans (hq.bare hlabel)

theorem ofName_meets {name : String} :
    Meets (ofName name) (fun p => IsName name ∧ p = ⟨name⟩)
      (fun e => ¬ IsName name ∧ e = .invalidPlatform name) := by
  unfold ofName
  split
  · next hname => exact ⟨hname, rfl⟩
  · next hname => exact ⟨hname, rfl⟩

/-- Reading a text finds the platform that it names. A text that names none is refused, or what
stands after its last colon is. -/
theorem ofLabel_meets {text : String} :
    Meets (ofLabel text) (NamedBy text)
      (fun e => (∀ p, ¬ NamedBy text p) ∧
        ∃ id, e = .invalidPlatform id ∧ id.toList <:+ text.toList) := by
  unfold ofLabel
  split
  · next hslashes =>
    have hlabel : IsLabel text := Text.hasDoubleSlash_iff.1 hslashes
    cases hcut : Text.cutLast? ':' text with
    | none =>
      refine ⟨fun p hp => ?_, text, rfl, List.suffix_rfl⟩
      obtain ⟨place, hplace⟩ := hp.label hlabel
      rw [Text.cutLast?_eq_some_iff.2 hplace] at hcut
      cases hcut
    | some parts =>
      obtain ⟨place, name⟩ := parts
      have hplace := Text.cutLast?_eq_some_iff.1 hcut
      have hname : ∀ {p}, NamedBy text p → p.text = name := by
        intro p hp
        obtain ⟨place', hplace'⟩ := hp.label hlabel
        rw [Text.cutLast?_eq_some_iff.2 hplace'] at hcut
        cases hcut
        rfl
      dsimp only
      split
      · next hempty =>
        refine ⟨fun p hp => hp.name.1 ?_, text, rfl, List.suffix_rfl⟩
        rw [hname hp, hempty]
      · refine ofName_meets.mono (fun p hp => ?_) fun e he => ?_
        · obtain ⟨hvalid, rfl⟩ := hp
          exact ⟨hvalid, fun hnot => absurd hlabel hnot, fun _ => ⟨place, hplace⟩⟩
        · obtain ⟨hinvalid, rfl⟩ := he
          refine ⟨fun p hp => hinvalid (hname hp ▸ hp.name), name, rfl, ?_⟩
          rw [hplace.1]
          exact (List.suffix_cons _ _).trans (List.suffix_append _ _)
  · next hslashes =>
    have hbare : ¬ IsLabel text := fun hlabel => hslashes (Text.hasDoubleSlash_iff.2 hlabel)
    refine ofName_meets.mono (fun p hp => ?_) fun e he => ?_
    · obtain ⟨hvalid, rfl⟩ := hp
      exact ⟨hvalid, fun _ => rfl, fun hlabel => absurd hlabel hbare⟩
    · obtain ⟨hinvalid, rfl⟩ := he
      exact ⟨fun p hp => hinvalid (hp.bare hbare ▸ hp.name), text, rfl, List.suffix_rfl⟩

theorem ofLabel_eq_ok_iff {text : String} {p : Platform} :
    ofLabel text = .ok p ↔ NamedBy text p := by
  have hmeets : Meets (ofLabel text) _ _ := ofLabel_meets
  cases hread : ofLabel text with
  | ok q =>
    rw [hread] at hmeets
    constructor
    · intro h
      cases h
      exact hmeets
    · intro h
      rw [hmeets.unique h]
  | error e =>
    rw [hread] at hmeets
    exact iff_of_false nofun (hmeets.1 p)

/-! ## Names read again -/

section

variable {text : String} {p q : Platform}

/-- A name that looks like a label was cut from one, so it has no colon. -/
theorem NamedBy.colon_not_mem (h : NamedBy text p) (hlabel : IsLabel p.text) :
    ':' ∉ p.text.toList := by
  by_cases hfrom : IsLabel text
  · obtain ⟨_, _, hcolon⟩ := h.label hfrom
    exact hcolon
  · rw [← h.bare hfrom] at hlabel
    exact absurd hlabel hfrom

theorem NamedBy.text_of_not_isLabel (h : NamedBy text p) (hplain : ¬ IsLabel p.text) :
    NamedBy p.text p :=
  ⟨h.name, fun _ => rfl, fun hlabel => absurd hlabel hplain⟩

theorem NamedBy.not_text_of_isLabel (h : NamedBy text p) (hlabel : IsLabel p.text) :
    ¬ NamedBy p.text q := by
  intro hq
  obtain ⟨place, hplace, -⟩ := hq.label hlabel
  apply h.colon_not_mem hlabel
  rw [hplace]
  simp

/-- The name of a platform is read as that platform exactly if it does not look like a label. -/
theorem NamedBy.ofLabel_text_iff (h : NamedBy text p) :
    ofLabel p.text = .ok p ↔ ¬ IsLabel p.text := by
  rw [ofLabel_eq_ok_iff]
  exact ⟨fun hp hlabel => h.not_text_of_isLabel hlabel hp, h.text_of_not_isLabel⟩

theorem NamedBy.ofLabel_text_eq_error (h : NamedBy text p) (hlabel : IsLabel p.text) :
    ofLabel p.text = .error (.invalidPlatform p.text) := by
  unfold ofLabel
  rw [if_pos (Text.hasDoubleSlash_iff.2 hlabel),
    Text.cutLast?_eq_none_iff.2 (h.colon_not_mem hlabel)]

end

end Platform

end BuildRules
