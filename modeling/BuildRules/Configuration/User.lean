import BuildRules.Configuration.Settings

/-!
# User configuration

Defaults of one user for all manifests. They make a layer of settings below those of a manifest.
-/

namespace BuildRules

structure UserDefaults where
  platform : Option String := none
  hostPlatform : Option String := none
  jobs : Option Nat := none
  deriving DecidableEq

structure UserConfig where
  defaults : Option UserDefaults := none
  deriving DecidableEq

namespace UserConfig

def toSettings (c : UserConfig) : Settings :=
  let defaults := c.defaults.getD {}
  { defaultPlatform := defaults.platform
    hostPlatform := defaults.hostPlatform
    jobs := defaults.jobs }

def validate (c : UserConfig) : Except ConfigError Unit := c.toSettings.validate "defaults"

end UserConfig

end BuildRules
