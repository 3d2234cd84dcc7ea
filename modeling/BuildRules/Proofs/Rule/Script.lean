import BuildRules.Rule
import Mathlib.Data.List.Basic
import Mathlib.Data.List.Induction

/-!
# Environments of build scripts

What a build script computes for the target that it runs for, said variable by variable, and what
several scripts hand on together, where a later script wins. Main statements:
`get?_computedEnv_eq_some_iff` and `get?_handedOn`.
-/

namespace BuildRules

/-! ## Computed variables -/

/-- The architecture is what stands before the first dash. -/
theorem Platform.arch_eq (p : Platform) :
    p.arch = String.ofList (p.text.toList.takeWhile (· ≠ '-')) := by
  have hbefore : ∀ {l : List Char}, '-' ∉ l → ∀ c ∈ l, decide (c ≠ '-') = true := by
    intro l hl c hc
    exact decide_eq_true fun heq => hl (heq ▸ hc)
  unfold arch
  cases hcut : Text.cutFirst? '-' p.text with
  | none =>
    have hall := hbefore (Text.cutFirst?_eq_none_iff.1 hcut)
    rw [← List.append_nil p.text.toList, List.takeWhile_append_of_pos hall]
    simp
  | some parts =>
    obtain ⟨before, after⟩ := parts
    obtain ⟨hsplit, hdash⟩ := Text.cutFirst?_eq_some_iff.1 hcut
    rw [hsplit, List.takeWhile_append_of_pos (hbefore hdash)]
    simp

/-- The variables that every script computes, whatever it runs for. -/
def basicVariables : List String :=
  ["TARGET", "HOST", "CARGO_CFG_TARGET_ARCH", "CARGO_PKG_NAME", "CARGO_PKG_VERSION"]

/-- The values of the variables that every script computes. -/
def ScriptContext.basicEnv (context : ScriptContext) : List (String × String) :=
  [ ("TARGET", context.target.text),
    ("HOST", context.host.text),
    ("CARGO_CFG_TARGET_ARCH", context.target.arch),
    ("CARGO_PKG_NAME", context.package),
    ("CARGO_PKG_VERSION", context.version.getD "0.0.0") ]

namespace Script

/-- What a script computes for a variable. -/
inductive Computes (s : Script) (context : ScriptContext) : String → String → Prop
  | basic {key value : String} (h : (key, value) ∈ context.basicEnv) : Computes s context key value
  | links {links : String} (h : s.links = some links) :
      Computes s context "CARGO_MANIFEST_LINKS" links
  | feature {feature : String} (h : feature ∈ context.features) :
      Computes s context (featureVariable feature) "1"

variable {s : Script} {context : ScriptContext} {key value value' : String}

theorem mem_basicVariables (h : (key, value) ∈ context.basicEnv) : key ∈ basicVariables := by
  have hkey : key ∈ context.basicEnv.map Prod.fst := List.mem_map_of_mem h
  exact hkey

theorem isPrefix_featureVariable (feature : String) :
    "CARGO_FEATURE_".toList <+: (featureVariable feature).toList := by
  simp [featureVariable]

/-- Only the variables that announce features start as these do. -/
theorem not_isPrefix_of_mem_basicVariables :
    ∀ key ∈ basicVariables, ¬ "CARGO_FEATURE_".toList <+: key.toList := by
  decide

theorem computes_basic_iff (hkey : key ∈ basicVariables) :
    s.Computes context key value ↔ (key, value) ∈ context.basicEnv := by
  constructor
  · intro h
    cases h with
    | basic h => exact h
    | links h => exact absurd hkey (by decide)
    | feature h =>
      exact absurd (isPrefix_featureVariable _) (not_isPrefix_of_mem_basicVariables _ hkey)
  · exact .basic

theorem computes_links_iff :
    s.Computes context "CARGO_MANIFEST_LINKS" value ↔ s.links = some value := by
  constructor
  · generalize hkey : "CARGO_MANIFEST_LINKS" = key
    intro h
    cases h with
    | basic h => exact absurd (hkey ▸ mem_basicVariables h) (by decide)
    | links h => exact h
    | feature h => exact absurd (hkey ▸ isPrefix_featureVariable _) (by decide)
  · exact .links

theorem computes_feature_iff {name : String} :
    s.Computes context ("CARGO_FEATURE_" ++ name) value ↔
      value = "1" ∧ ∃ feature ∈ context.features,
        name = (Text.upper feature).map fun c => if c = '-' then '_' else c := by
  constructor
  · generalize hkey : "CARGO_FEATURE_" ++ name = key
    have hstart : "CARGO_FEATURE_".toList <+: key.toList := by simp [← hkey]
    intro h
    cases h with
    | basic h =>
      exact absurd hstart (not_isPrefix_of_mem_basicVariables key (mem_basicVariables h))
    | links h => exact absurd hstart (by decide)
    | feature h => exact ⟨rfl, _, h, (String.append_right_inj _).1 hkey⟩
  · rintro ⟨rfl, feature, hfeature, rfl⟩
    exact .feature hfeature

theorem eq_of_mem_basicEnv (h : (key, value) ∈ context.basicEnv)
    (h' : (key, value') ∈ context.basicEnv) : value = value' := by
  simp only [ScriptContext.basicEnv, List.mem_cons, Prod.mk.injEq, List.not_mem_nil,
    or_false] at h h'
  rcases h with ⟨rfl, rfl⟩ | ⟨rfl, rfl⟩ | ⟨rfl, rfl⟩ | ⟨rfl, rfl⟩ | ⟨rfl, rfl⟩ <;>
    exact Eq.symm (by simpa using h')

/-- A script computes one value for a variable. -/
theorem Computes.unique (h : s.Computes context key value) (h' : s.Computes context key value') :
    value = value' := by
  cases h with
  | basic h => exact eq_of_mem_basicEnv h ((computes_basic_iff (mem_basicVariables h)).1 h')
  | links h => exact Option.some.inj (h.symm.trans (computes_links_iff.1 h'))
  | feature h => exact (computes_feature_iff.1 h').1.symm

theorem get?_computedEnv_eq_some_iff :
    (s.computedEnv context).get? key = some value ↔ s.Computes context key value := by
  have hmem : ∀ {key value}, (key, value) ∈ context.basicEnv
      ++ (s.links.map fun links => ("CARGO_MANIFEST_LINKS", links)).toList
      ++ context.features.toList.map (fun feature => (featureVariable feature, "1")) ↔
        s.Computes context key value := by
    intro key value
    simp only [List.mem_append, Option.mem_toList, Option.map_eq_some_iff, List.mem_map,
      Prod.mk.injEq]
    constructor
    · rintro ((h | ⟨links, h, rfl, rfl⟩) | ⟨feature, h, rfl, rfl⟩)
      · exact .basic h
      · exact .links h
      · exact .feature h
    · intro h
      cases h with
      | basic h => exact .inl (.inl h)
      | links h => exact .inl (.inr ⟨_, h, rfl, rfl⟩)
      | feature h => exact .inr ⟨_, h, rfl, rfl⟩
  refine (SortedMap.get?_ofList_eq_some_iff fun k v v' h h' => ?_).trans hmem
  exact (hmem.1 h).unique (hmem.1 h')

/-- What a script declares wins over what it computes. -/
theorem get?_environment : (s.environment context).get? key =
    (s.env.get? key).or ((s.computedEnv context).get? key) :=
  SortedMap.get?_override _ _ _

/-! ## Several scripts -/

/-- What scripts hand on together, the later ones over the earlier ones. -/
def handedOn (context : ScriptContext) (scripts : List Script) : Environment :=
  scripts.foldl (fun env s => env.override (s.environment context)) ∅

theorem handedOn_concat (scripts : List Script) (s : Script) :
    handedOn context (scripts ++ [s]) =
      (handedOn context scripts).override (s.environment context) := by
  simp [handedOn]

/-- The last script that has a value for a variable decides. -/
theorem get?_handedOn {scripts : List Script} :
    (handedOn context scripts).get? key =
      scripts.reverse.findSome? fun s => (s.environment context).get? key := by
  induction scripts using List.reverseRecOn with
  | nil => rfl
  | append_singleton scripts s ih =>
    rw [handedOn_concat, SortedMap.get?_override, ih, List.reverse_append, List.reverse_singleton,
      List.singleton_append, List.findSome?_cons]
    cases (s.environment context).get? key <;> rfl

section

variable {scripts : List Script}

/-- What all scripts agree on is handed on. -/
theorem get?_handedOn_of_forall (hs : s ∈ scripts)
    (h : ∀ s' ∈ scripts, (s'.environment context).get? key = some value) :
    (handedOn context scripts).get? key = some value := by
  rw [get?_handedOn]
  cases hreverse : scripts.reverse with
  | nil => simp [List.reverse_eq_nil_iff.1 hreverse] at hs
  | cons last rest =>
    have hlast : last ∈ scripts := by
      rw [← List.mem_reverse, hreverse]
      exact List.mem_cons_self
    rw [List.findSome?_cons, h last hlast]

/-- What all scripts compute is handed on where none of them declares it. -/
theorem get?_handedOn_computed (hs : s ∈ scripts)
    (hundeclared : ∀ s' ∈ scripts, s'.env.get? key = none)
    (h : ∀ s' : Script, s'.Computes context key value) :
    (handedOn context scripts).get? key = some value := by
  refine get?_handedOn_of_forall hs fun s' hs' => ?_
  rw [get?_environment, hundeclared s' hs', Option.none_or]
  exact get?_computedEnv_eq_some_iff.2 (h s')

theorem get?_handedOn_ne_none (hs : s ∈ scripts) (h : s.Computes context key value) :
    (handedOn context scripts).get? key ≠ none := by
  rw [get?_handedOn]
  intro hnone
  have hs' := List.findSome?_eq_none_iff.1 hnone s (List.mem_reverse.2 hs)
  rw [get?_environment, get?_computedEnv_eq_some_iff.2 h, Option.or_eq_none_iff] at hs'
  cases hs'.2

/-- A variable that no script declares has a value that one of them computes. -/
theorem exists_computes_of_get?_handedOn (hundeclared : ∀ s ∈ scripts, s.env.get? key = none)
    (h : (handedOn context scripts).get? key = some value) :
    ∃ s ∈ scripts, s.Computes context key value := by
  rw [get?_handedOn] at h
  obtain ⟨s, hs, hvalue⟩ := List.exists_of_findSome?_eq_some h
  rw [List.mem_reverse] at hs
  rw [get?_environment, hundeclared s hs, Option.none_or] at hvalue
  exact ⟨s, hs, get?_computedEnv_eq_some_iff.1 hvalue⟩

end

/-- Of the scripts, the last one that computes a variable computes another value for it. -/
def Overwrites (context : ScriptContext) (scripts : List Script) (key value : String) : Prop :=
  ∃ before s after other, scripts = before ++ s :: after ∧ s.Computes context key other ∧
    other ≠ value ∧ ∀ s' ∈ after, ∀ other', ¬ s'.Computes context key other'

theorem overwrites_iff {scripts : List Script} :
    Overwrites context scripts key value ↔
      ∃ other, (scripts.reverse.findSome? fun s => (s.computedEnv context).get? key) = some other ∧
        other ≠ value := by
  constructor
  · rintro ⟨before, s, after, other, rfl, hcomputes, hne, hafter⟩
    have hnone : (after.reverse.findSome? fun s => (s.computedEnv context).get? key) = none := by
      refine List.findSome?_eq_none_iff.2 fun s' hs' => Option.eq_none_iff_forall_ne_some.2 ?_
      exact fun other' h =>
        hafter s' (List.mem_reverse.1 hs') other' (get?_computedEnv_eq_some_iff.1 h)
    refine ⟨other, ?_, hne⟩
    rw [List.reverse_append, List.reverse_cons, List.append_assoc, List.findSome?_append, hnone,
      List.singleton_append, List.findSome?_cons, get?_computedEnv_eq_some_iff.2 hcomputes]
    rfl
  · rintro ⟨other, hlast, hne⟩
    obtain ⟨later, s, earlier, hsplit, hs, hlater⟩ := List.findSome?_eq_some_iff.1 hlast
    have hcomputes := get?_computedEnv_eq_some_iff.1 hs
    refine ⟨earlier.reverse, s, later.reverse, other, ?_, hcomputes, hne, ?_⟩
    · rw [← List.reverse_reverse scripts, hsplit]
      simp
    · intro s' hs' other' hcomputes
      have hnone := hlater s' (List.mem_reverse.1 hs')
      rw [get?_computedEnv_eq_some_iff.2 hcomputes] at hnone
      cases hnone

/-- A declared value is handed on unless it is overwritten by what later scripts compute. -/
theorem get?_handedOn_declared_iff {before after : List Script}
    (hdeclared : s.env.get? key = some value) (hafter : ∀ s' ∈ after, s'.env.get? key = none) :
    (handedOn context (before ++ s :: after)).get? key = some value ↔
      ¬ Overwrites context after key value := by
  have hcomputed : (after.reverse.findSome? fun s' => (s'.environment context).get? key) =
      after.reverse.findSome? fun s' => (s'.computedEnv context).get? key := by
    rw [← List.head?_filterMap, ← List.head?_filterMap]
    refine congrArg List.head? (List.filterMap_congr fun s' hs' => ?_)
    rw [get?_environment, hafter s' (List.mem_reverse.1 hs'), Option.none_or]
  have hown : (s.environment context).get? key = some value := by
    rw [get?_environment, hdeclared, Option.some_or]
  rw [get?_handedOn, List.reverse_append, List.reverse_cons, List.append_assoc,
    List.findSome?_append, hcomputed, List.singleton_append, List.findSome?_cons, hown,
    overwrites_iff]
  cases after.reverse.findSome? fun s' => (s'.computedEnv context).get? key <;> simp

end Script

end BuildRules
