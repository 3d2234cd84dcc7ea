import BuildRules.Configuration
import BuildRules.Proofs.Except
import Mathlib.Control.Monad.Basic

/-!
# Layers of settings

The effective settings have each value from the first layer that sets it: the overrides, then the
manifest, then the configuration of the user. Layers are valid one by one, and so is what they make
together, so whether loading fails, and with what, is a matter of the overrides alone. Main
statement: `load_layered`.
-/

namespace BuildRules

/-! ## Valid layers -/

namespace Settings

theorem isValid_empty : IsValid {} where
  defaultPlatform := rfl
  hostPlatform := rfl
  jobs := nofun
  flags := rfl

private theorem any_or {a b : Option String} {p : String → Bool} (ha : a.any p = false)
    (hb : b.any p = false) : (a.or b).any p = false := by
  cases a <;> assumption

/-- Valid settings over valid ones are valid. -/
theorem IsValid.fill {s defaults : Settings} (hs : s.IsValid) (hdefaults : defaults.IsValid) :
    (s.fill defaults).IsValid where
  defaultPlatform := any_or hs.defaultPlatform hdefaults.defaultPlatform
  hostPlatform := any_or hs.hostPlatform hdefaults.hostPlatform
  jobs := by
    have hjobs := hs.jobs
    cases h : s.jobs <;> simp_all [Settings.fill, hdefaults.jobs]
  flags := by simp [Settings.fill, hs.flags, hdefaults.flags]

end Settings

theorem Manifest.isValid_of_load {files : Files} {path : Path} {manifest : Manifest}
    (h : Manifest.load files path = .ok manifest) : manifest.settings.IsValid := by
  simp only [Manifest.load, Manifest.ofToml, bind_eq_ok_iff] at h
  obtain ⟨document, -, read, -, ⟨⟩, hvalidate, hread⟩ := h
  cases hread
  simp only [Manifest.validate, bind_eq_ok_iff] at hvalidate
  obtain ⟨⟨⟩, hsettings, -⟩ := hvalidate
  exact Settings.validate_eq_ok_iff.1 hsettings

theorem isValid_of_findManifest {files : Files} {source : ManifestSource} {manifest : Manifest}
    {root : Option Path} (h : findManifest files source = .ok (manifest, root)) :
    manifest.settings.IsValid := by
  unfold findManifest at h
  split at h
  · obtain ⟨read, hread, heq⟩ := bind_eq_ok_iff.1 h
    cases heq
    exact Manifest.isValid_of_load hread
  · split at h
    · obtain ⟨read, hread, heq⟩ := bind_eq_ok_iff.1 h
      cases heq
      exact Manifest.isValid_of_load hread
    · cases h
      exact Settings.isValid_empty

namespace UserConfig

theorem isValid_of_load {files : Files} {path : Path} {config : UserConfig}
    (h : UserConfig.load files path = .ok config) : config.toSettings.IsValid := by
  simp only [UserConfig.load, bind_eq_ok_iff] at h
  obtain ⟨document, -, read, -, ⟨⟩, hvalidate, hread⟩ := h
  cases hread
  exact Settings.validate_eq_ok_iff.1 hvalidate

/-- The user configuration at a path if it can be loaded, else the empty one. -/
def usable (files : Files) (path : Option Path) : UserConfig :=
  (path.bind fun path => (UserConfig.load files path).toOption).getD {}

theorem isValid_usable {files : Files} {path : Option Path} :
    (usable files path).toSettings.IsValid := by
  cases path with
  | none => exact Settings.isValid_empty
  | some path =>
    cases hload : UserConfig.load files path with
    | error e =>
      rw [usable, Option.bind_some, hload]
      exact Settings.isValid_empty
    | ok config =>
      rw [usable, Option.bind_some, hload]
      exact isValid_of_load hload

end UserConfig

/-- A path at which there is nothing needs no check of its own: nothing can be loaded from it. -/
theorem userConfigAt_eq {files : Files} {path : Option Path} :
    userConfigAt files path = UserConfig.usable files path := by
  cases path with
  | none => rfl
  | some path =>
    simp only [userConfigAt, UserConfig.usable, Option.bind_some]
    split
    · cases UserConfig.load files path <;> rfl
    · next habsent =>
      have hload : ∃ e, UserConfig.load files path = .error e := by
        unfold UserConfig.load readToml
        cases hstate : files path <;> simp_all [FileState.isPresent, bind, Except.bind]
      obtain ⟨e, hload⟩ := hload
      rw [hload]
      rfl

/-! ## Overrides -/

namespace Overrides

/-- The number of jobs that the overrides set, if they set one. -/
inductive SetsJobs (o : Overrides) : Option Nat → Prop
  | unset : o.jobs = none → SetsJobs o none
  | set {text : String} {n : Nat} : o.jobs = some text → Text.Denotes (Text.trim text) n →
      SetsJobs o (some n)

/-- The overrides set what no settings may have. -/
inductive IsFaulty (o : Overrides) : Prop
  | platform {text : String} : o.platform = some text → Text.allBlank text → IsFaulty o
  | hostPlatform {text : String} : o.hostPlatform = some text → Text.allBlank text → IsFaulty o
  | notNumber {text : String} : o.jobs = some text → (∀ n, ¬ Text.Denotes (Text.trim text) n) →
      IsFaulty o
  | noJobs {text : String} : o.jobs = some text → Text.Denotes (Text.trim text) 0 → IsFaulty o

/-- The settings under overrides that set these jobs. -/
def layOver (o : Overrides) (own : Option Nat) (s : Settings) : Settings :=
  { s with
    defaultPlatform := o.platform.or s.defaultPlatform
    hostPlatform := o.hostPlatform.or s.hostPlatform
    jobs := own.or s.jobs }

variable {o : Overrides}

/-- Whether the overrides can be read does not depend on what they are laid over. -/
theorem apply_cases (o : Overrides) :
    (∃ own, o.SetsJobs own ∧ ∀ s, o.apply s = .ok (o.layOver own s)) ∨
      ∃ e, (∀ own, ¬ o.SetsJobs own) ∧ ∀ s, o.apply s = .error e := by
  cases hjobs : o.jobs with
  | none =>
    refine .inl ⟨none, .unset hjobs, fun s => ?_⟩
    rw [apply, hjobs]
    rfl
  | some text =>
    cases hread : Text.natural? (Text.trim text) with
    | ok n =>
      refine .inl ⟨some n, .set hjobs (Text.natural?_eq_ok_iff.1 hread), fun s => ?_⟩
      simp only [apply, hjobs, hread]
      rfl
    | error fault =>
      refine .inr ⟨.invalidValue "RULEKIT_JOBS" (.notNumber fault), ?_, fun s => ?_⟩
      · rintro own (hunset | ⟨hset, hdenotes⟩)
        · simp [hjobs] at hunset
        · cases hjobs.symm.trans hset
          simp [Text.natural?_eq_ok_iff.2 hdenotes] at hread
      · simp only [apply, hjobs, hread]
        rfl

theorem SetsJobs.unique {own own' : Option Nat} (h : o.SetsJobs own) (h' : o.SetsJobs own') :
    own = own' := by
  cases h with
  | unset hjobs =>
    cases h' with
    | unset => rfl
    | set hjobs' => simp [hjobs] at hjobs'
  | set hjobs hdenotes =>
    cases h' with
    | unset hjobs' => simp [hjobs] at hjobs'
    | set hjobs' hdenotes' =>
      cases hjobs.symm.trans hjobs'
      have hread := Text.natural?_eq_ok_iff.2 hdenotes
      rw [Text.natural?_eq_ok_iff.2 hdenotes', Except.ok.injEq] at hread
      rw [hread]

/-- Refuses overrides that cannot be read, or set what no settings may have. -/
def check (o : Overrides) : Except ConfigError Unit := do
  (← o.apply {}).validate "settings"

/-- What is valid without the overrides can be refused only for what they set. -/
theorem validate_layOver {s : Settings} (hs : s.IsValid) (own : Option Nat) :
    (o.layOver own s).validate "settings" = (o.layOver own {}).validate "settings" := by
  refine Settings.validate_congr ?_ ?_ ?_ hs.flags
  · cases h : o.platform <;> simp [layOver, h, hs.defaultPlatform]
  · cases h : o.hostPlatform <;> simp [layOver, h, hs.hostPlatform]
  · cases own <;> simp [layOver, hs.jobs]

theorem apply_validate {s : Settings} (hs : s.IsValid) :
    (o.apply s >>= fun settings => settings.validate "settings") = o.check := by
  obtain ⟨own, -, happly⟩ | ⟨e, -, happly⟩ := o.apply_cases
  · rw [check, happly, happly]
    exact validate_layOver hs own
  · rw [check, happly, happly]

theorem check_eq_ok_iff :
    o.check = .ok () ↔ ∃ own, o.SetsJobs own ∧ (o.layOver own {}).IsValid := by
  obtain ⟨own, hjobs, happly⟩ | ⟨e, hno, happly⟩ := o.apply_cases
  · have hcheck : o.check = (o.layOver own {}).validate "settings" := by
      rw [check, happly]
      rfl
    rw [hcheck, Settings.validate_eq_ok_iff]
    exact ⟨fun h => ⟨own, hjobs, h⟩, fun ⟨own', hjobs', h⟩ => hjobs.unique hjobs' ▸ h⟩
  · have hcheck : o.check = .error e := by
      rw [check, happly]
      rfl
    simp [hcheck, hno]

theorem not_isFaulty {own : Option Nat} (hjobs : o.SetsJobs own)
    (hvalid : (o.layOver own {}).IsValid) : ¬ o.IsFaulty := by
  rintro (⟨hset, hblank⟩ | ⟨hset, hblank⟩ | ⟨hset, hno⟩ | ⟨hset, hzero⟩)
  · have hplatform := hvalid.defaultPlatform
    simp [layOver, hset, hblank] at hplatform
  · have hplatform := hvalid.hostPlatform
    simp [layOver, hset, hblank] at hplatform
  · cases hjobs with
    | unset hunset => simp [hset] at hunset
    | set hset' hdenotes =>
      cases hset.symm.trans hset'
      exact hno _ hdenotes
  · cases hjobs.unique (.set hset hzero)
    exact hvalid.jobs rfl

theorem exists_setsJobs (h : ¬ o.IsFaulty) : ∃ own, o.SetsJobs own := by
  cases hset : o.jobs with
  | none => exact ⟨none, .unset hset⟩
  | some text =>
    refine Classical.byContradiction fun hno => h (.notNumber hset fun n hdenotes => hno ?_)
    exact ⟨some n, .set hset hdenotes⟩

theorem isValid_layOver {own : Option Nat} (h : ¬ o.IsFaulty) (hjobs : o.SetsJobs own) :
    (o.layOver own {}).IsValid where
  defaultPlatform := by
    cases hset : o.platform with
    | none => simp [layOver, hset]
    | some text => simpa [layOver, hset] using fun hblank => h (.platform hset hblank)
  hostPlatform := by
    cases hset : o.hostPlatform with
    | none => simp [layOver, hset]
    | some text => simpa [layOver, hset] using fun hblank => h (.hostPlatform hset hblank)
  jobs := by
    cases hjobs with
    | unset => simp [layOver]
    | set hset hdenotes =>
      intro hzero
      cases hzero
      exact h (.noJobs hset hdenotes)
  flags := rfl

/-- The overrides are refused exactly when they are faulty. -/
theorem exists_check_eq_error_iff : (∃ e, o.check = .error e) ↔ o.IsFaulty := by
  constructor
  · rintro ⟨e, herror⟩
    refine Classical.byContradiction fun hnot => ?_
    obtain ⟨own, hjobs⟩ := exists_setsJobs hnot
    rw [check_eq_ok_iff.2 ⟨own, hjobs, isValid_layOver hnot hjobs⟩] at herror
    cases herror
  · intro hfaulty
    cases hcheck : o.check with
    | error e => exact ⟨e, rfl⟩
    | ok =>
      obtain ⟨own, hjobs, hvalid⟩ := check_eq_ok_iff.1 hcheck
      exact absurd hfaulty (not_isFaulty hjobs hvalid)

end Overrides

/-! ## Configurations -/

namespace Configuration

/-- The settings that a configuration has are those of a manifest over those of a user and under
overrides, and everything else in it is as the manifest has it. -/
structure IsLayered (c : Configuration) (manifest : Manifest) (user : UserConfig) (o : Overrides) :
    Prop where
  defaultPlatform : c.settings.defaultPlatform =
    o.platform.or (manifest.settings.defaultPlatform.or user.toSettings.defaultPlatform)
  hostPlatform : c.settings.hostPlatform =
    o.hostPlatform.or (manifest.settings.hostPlatform.or user.toSettings.hostPlatform)
  jobs : ∃ own, o.SetsJobs own ∧
    c.settings.jobs = own.or (manifest.settings.jobs.or user.toSettings.jobs)
  extraFlags : c.settings.extraFlags = manifest.settings.extraFlags
  flags : c.settings.flags = manifest.settings.flags
  targets : c.manifest.targets = manifest.targets
  scripts : c.manifest.scripts = manifest.scripts

variable {manifest : Manifest} {root : Option Path} {user : UserConfig} {o : Overrides}

theorem ofLayers_eq_error_iff (hmanifest : manifest.settings.IsValid)
    (huser : user.toSettings.IsValid) {e : ConfigError} :
    ofLayers manifest root user o = .error e ↔ o.check = .error e := by
  rw [← Overrides.apply_validate (hmanifest.fill huser)]
  simp only [ofLayers, bind_eq_error_iff, pure, Except.pure, reduceCtorEq, and_false, exists_false,
    or_false]

theorem isLayered_of_ofLayers {c : Configuration} (h : ofLayers manifest root user o = .ok c) :
    c.IsLayered manifest user o := by
  simp only [ofLayers, bind_eq_ok_iff] at h
  obtain ⟨settings, happly, ⟨⟩, -, heq⟩ := h
  cases heq
  obtain ⟨own, hjobs, hlay⟩ | ⟨e, -, herror⟩ := o.apply_cases
  · rw [hlay] at happly
    cases happly
    exact {
      defaultPlatform := rfl
      hostPlatform := rfl
      jobs := ⟨own, hjobs, rfl⟩
      extraFlags := by simp [settings, Overrides.layOver, Settings.fill, UserConfig.toSettings]
      flags := by simp [settings, Overrides.layOver, Settings.fill, UserConfig.toSettings]
      targets := rfl
      scripts := rfl }
  · rw [herror] at happly
    cases happly

theorem load_eq_ofLayers {files : Files} {source : ManifestSource} (userPath : Option Path)
    (h : findManifest files source = .ok (manifest, root)) :
    load files source userPath o = ofLayers manifest root (UserConfig.usable files userPath) o := by
  rw [load, h, userConfigAt_eq]
  rfl

theorem load_eq_error_iff {files : Files} {source : ManifestSource} (userPath : Option Path)
    (h : findManifest files source = .ok (manifest, root)) {e : ConfigError} :
    load files source userPath o = .error e ↔ o.check = .error e := by
  rw [load_eq_ofLayers userPath h]
  exact ofLayers_eq_error_iff (isValid_of_findManifest h) UserConfig.isValid_usable

/-- Where there is a manifest that can be loaded, a configuration is loaded with the value of the
first layer that has one, unless the overrides are faulty. Whether it is and what it is refused with
depends neither on the user configuration nor on anything but the overrides. -/
theorem load_layered {files : Files} {source : ManifestSource}
    (h : findManifest files source = .ok (manifest, root)) (userPath : Option Path)
    (o : Overrides) :
    (∀ c, load files source userPath o = .ok c →
        c.IsLayered manifest (UserConfig.usable files userPath) o) ∧
      ((∃ e, load files source userPath o = .error e) ↔ o.IsFaulty) ∧
      ∀ files' source' manifest' root' userPath',
        findManifest files' source' = .ok (manifest', root') →
          ∀ e, load files source userPath o = .error e ↔
            load files' source' userPath' o = .error e := by
  refine ⟨fun c hload => ?_, ?_, fun files' source' manifest' root' userPath' h' e => ?_⟩
  · rw [load_eq_ofLayers userPath h] at hload
    exact isLayered_of_ofLayers hload
  · simp only [load_eq_error_iff userPath h, Overrides.exists_check_eq_error_iff]
  · rw [load_eq_error_iff userPath h, load_eq_error_iff userPath' h']

/-- A manifest that sets the jobs, and a user configuration that sets the jobs and the platform. -/
def sampleFiles : Files := fun path =>
  if path = ⟨manifestName, []⟩ then .text "[settings]\njobs = 4\n"
  else if path = ⟨"config.toml", []⟩ then .text "[defaults]\nplatform = \"wasm32\"\njobs = 8\n"
  else .absent

theorem load_layered_sample :
    ∃ c, load sampleFiles (.file ⟨manifestName, []⟩) (some ⟨"config.toml", []⟩)
        { hostPlatform := some "aarch64-apple-darwin" } = .ok c ∧
      c.settings.defaultPlatform = some "wasm32" ∧
      c.settings.hostPlatform = some "aarch64-apple-darwin" ∧ c.settings.jobs = some 4 := by
  have hmanifest : findManifest sampleFiles (.file ⟨manifestName, []⟩) =
      .ok ({ settings := { jobs := some 4 } }, some Path.here) := by decide +kernel
  have huser : UserConfig.usable sampleFiles (some ⟨"config.toml", []⟩) =
      { defaults := some { platform := some "wasm32", jobs := some 8 } } := by decide +kernel
  obtain ⟨hlayered, hfaulty, -⟩ := load_layered hmanifest (some ⟨"config.toml", []⟩)
    { hostPlatform := some "aarch64-apple-darwin" }
  rw [huser] at hlayered
  cases hload : load sampleFiles (.file ⟨manifestName, []⟩) (some ⟨"config.toml", []⟩)
      { hostPlatform := some "aarch64-apple-darwin" } with
  | error e =>
    obtain ⟨hset, -⟩ | ⟨hset, hblank⟩ | ⟨hset, -⟩ | ⟨hset, -⟩ := hfaulty.1 ⟨e, hload⟩ <;> cases hset
    exact absurd hblank (by decide)
  | ok c =>
    obtain ⟨hplatform, hhost, ⟨own, hown, hjobs⟩, -, -, -, -⟩ := hlayered c hload
    cases hown with
    | unset => exact ⟨c, rfl, hplatform, hhost, hjobs⟩
    | set hset => cases hset

end Configuration

end BuildRules
