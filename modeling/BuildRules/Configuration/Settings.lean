import BuildRules.Collection.SortedMap
import BuildRules.Configuration.Error
import BuildRules.Text.Blank

/-!
# Settings

What holds for every resolution of a build. Settings come in layers: an earlier layer wins, and a
later one fills what it leaves unset. Main statement: `validate_eq_ok_iff`, which says what settings
must satisfy to be accepted.
-/

namespace BuildRules

inductive FlagValue
  | bool (value : Bool)
  | int (value : Int)
  | text (value : String)
  | list (values : List String)
  deriving DecidableEq

structure Settings where
  /-- The platform to build for when none is named. -/
  defaultPlatform : Option String := none
  /-- The platform that build scripts and procedural macros run on; unset, the one built for. -/
  hostPlatform : Option String := none
  jobs : Option Nat := none
  /-- Compiler flags added to those of every target. -/
  extraFlags : List String := []
  flags : SortedMap String FlagValue := ∅
  deriving DecidableEq

namespace Settings

def boolFlag? (s : Settings) (name : String) : Option Bool :=
  match s.flags.get? name with
  | some (.bool value) => some value
  | _ => none

private def isBlank? (platform : Option String) : Bool := platform.any Text.allBlank

/-- Refuses blank platforms, no jobs at all and a flag without a name. Fields are told with the name
of the section that they stand in. -/
def validate (sectionName : String) (s : Settings) : Except ConfigError Unit :=
  if isBlank? s.defaultPlatform then
    .error (.invalidValue (sectionName ++ ".default_platform") .emptyPlatform)
  else if isBlank? s.hostPlatform then
    .error (.invalidValue (sectionName ++ ".host_platform") .emptyPlatform)
  else if s.jobs = some 0 then .error (.invalidValue (sectionName ++ ".jobs") .noJobs)
  else if s.flags.contains "" then .error (.invalidValue (sectionName ++ ".flags") .emptyFlagName)
  else .ok ()

/-- What settings must satisfy to be accepted. -/
structure IsValid (s : Settings) : Prop where
  defaultPlatform : s.defaultPlatform.any Text.allBlank = false
  hostPlatform : s.hostPlatform.any Text.allBlank = false
  jobs : s.jobs ≠ some 0
  flags : s.flags.contains "" = false

theorem validate_eq_ok_iff {sectionName : String} {s : Settings} :
    s.validate sectionName = .ok () ↔ s.IsValid := by
  unfold validate isBlank?
  constructor
  · intro h
    split at h; · cases h
    split at h; · cases h
    split at h; · cases h
    split at h; · cases h
    next platform host jobs flags =>
    exact ⟨by simpa using platform, by simpa using host, jobs, by simpa using flags⟩
  · rintro ⟨platform, host, jobs, flags⟩
    simp [platform, host, jobs, flags]

/-- Only what can be wrong with settings counts for what they are refused with. -/
theorem validate_congr {sectionName : String} {s t : Settings}
    (hplatform : s.defaultPlatform.any Text.allBlank = t.defaultPlatform.any Text.allBlank)
    (hhost : s.hostPlatform.any Text.allBlank = t.hostPlatform.any Text.allBlank)
    (hjobs : s.jobs = some 0 ↔ t.jobs = some 0)
    (hflags : s.flags.contains "" = t.flags.contains "") :
    s.validate sectionName = t.validate sectionName := by
  by_cases h : t.jobs = some 0 <;>
    simp only [validate, isBlank?, hplatform, hhost, hjobs, h, hflags, if_true, if_false]

/-- The settings with what they leave unset filled from `defaults`. -/
def fill (s defaults : Settings) : Settings where
  defaultPlatform := s.defaultPlatform.or defaults.defaultPlatform
  hostPlatform := s.hostPlatform.or defaults.hostPlatform
  jobs := s.jobs.or defaults.jobs
  extraFlags := if s.extraFlags.isEmpty then defaults.extraFlags else s.extraFlags
  flags := defaults.flags.override s.flags

end Settings

end BuildRules
