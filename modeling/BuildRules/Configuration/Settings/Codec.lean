import BuildRules.Configuration.Settings
import BuildRules.Document.Decode

/-!
# The written form of settings

A table in which unset fields are left out.
-/

namespace BuildRules

open Document

def FlagValue.toDocument : FlagValue → Document
  | bool value => .bool value
  | int value => .int value
  | text value => .text value
  | list values => .texts values

def FlagValue.ofDocument? : Document → Option FlagValue
  | .bool value => some (bool value)
  | .text value => some (text value)
  | .list items => (items.mapM text?).map list
  | d => d.int64?.map int

namespace Settings

def keys : List String :=
  ["default_platform", "host_platform", "jobs", "extra_rustc_flags", "flags"]

def ofDocument? (dialect : Dialect) (d : Document) : Option Settings := do
  let f ← d.fields? dialect true keys
  return {
    defaultPlatform := ← f.optional "default_platform" text?
    hostPlatform := ← f.optional "host_platform" text?
    jobs := ← f.optional "jobs" nat64?
    extraFlags := ← f.withDefault "extra_rustc_flags" [] texts?
    flags := ← f.withDefault "flags" ∅ (mapOf? FlagValue.ofDocument?) }

def toDocument (s : Settings) : Document :=
  .table <|
    ifSome "default_platform" .text s.defaultPlatform
    ++ ifSome "host_platform" .text s.hostPlatform
    ++ ifSome "jobs" (fun n => .int n) s.jobs
    ++ ifNonempty "extra_rustc_flags" s.extraFlags
    ++ ifEntries "flags" FlagValue.toDocument s.flags

end Settings

end BuildRules
