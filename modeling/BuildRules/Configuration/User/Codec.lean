import BuildRules.Configuration.User
import BuildRules.Document.Decode

/-!
# The written form of user configurations
-/

namespace BuildRules

open Document

namespace UserDefaults

def keys : List String := ["platform", "host_platform", "jobs"]

def ofDocument? (dialect : Dialect) (d : Document) : Option UserDefaults := do
  let f ← d.fields? dialect true keys
  return {
    platform := ← f.optional "platform" text?
    hostPlatform := ← f.optional "host_platform" text?
    jobs := ← f.optional "jobs" nat64? }

def toDocument (u : UserDefaults) : Document :=
  .table <|
    ifSome "platform" .text u.platform
    ++ ifSome "host_platform" .text u.hostPlatform
    ++ ifSome "jobs" (fun n => .int n) u.jobs

end UserDefaults

namespace UserConfig

def keys : List String := ["defaults"]

def ofDocument? (dialect : Dialect) (d : Document) : Option UserConfig := do
  let f ← d.fields? dialect true keys
  return { defaults := ← f.optional "defaults" (UserDefaults.ofDocument? dialect) }

def toDocument (c : UserConfig) : Document :=
  .table (ifSome "defaults" UserDefaults.toDocument c.defaults)

end UserConfig

end BuildRules
