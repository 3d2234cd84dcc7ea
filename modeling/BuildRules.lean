import BuildRules.Main
import BuildRules.Proofs.Configuration.Acceptance
import BuildRules.Proofs.Configuration.Filling
import BuildRules.Proofs.Configuration.Layers
import BuildRules.Proofs.Configuration.Nearest
import BuildRules.Proofs.Configuration.RoundTrip
import BuildRules.Proofs.Configuration.Table
import BuildRules.Proofs.Graph.Blocks
import BuildRules.Proofs.Resolution.Additive
import BuildRules.Proofs.Resolution.Checked
import BuildRules.Proofs.Resolution.Closure
import BuildRules.Proofs.Resolution.Declared
import BuildRules.Proofs.Resolution.Fingerprint
import BuildRules.Proofs.Resolution.Groups
import BuildRules.Proofs.Resolution.Local
import BuildRules.Proofs.Resolution.Plan
import BuildRules.Proofs.Resolution.Reason
import BuildRules.Proofs.Resolution.ScriptEnv
import BuildRules.Proofs.Resolution.Unification
import BuildRules.Proofs.Rule.Check
import BuildRules.Proofs.Rule.Condition
import BuildRules.Proofs.Rule.Flattening
import BuildRules.Proofs.Rule.RoundTrip
import BuildRules.Proofs.Rule.Session
import BuildRules.Proofs.Rule.Spelling
import BuildRules.Rule.Error
import BuildRules.Text.Blank
import BuildRules.Text.Cut
