import BuildRules.Digest.Sha256
import BuildRules.Document.Json
import BuildRules.Resolution
import BuildRules.Rule.Codec

/-!
# The written form of resolutions

Units, reasons and resolved targets as documents. The fingerprint of a resolved target is the digest
of its compact form, so equal resolutions have equal fingerprints on every run. Main statement: no
two resolved targets have one written form (`Resolved.toDocument_inj`).
-/

namespace BuildRules

open Document

def UnitKey.toDocument (key : UnitKey) : Document :=
  .table [("name", .text key.name), ("platform", .text key.platform.text)]

@[simp] theorem UnitKey.toDocument_inj {k l : UnitKey} : k.toDocument = l.toDocument ↔ k = l := by
  obtain ⟨name, ⟨text⟩⟩ := k
  obtain ⟨name', ⟨text'⟩⟩ := l
  simp [toDocument]

def BuildUnit.toDocument (u : BuildUnit) : Document :=
  .table <|
    [ ("key", u.key.toDocument),
      ("kind", .text u.kind.name),
      ("features", NameSet.toDocument u.features),
      ("rustc_flags", .texts u.compilerFlags),
      ("deps", .list (u.deps.map UnitKey.toDocument)),
      ("build_script_env", Environment.toDocument u.scriptEnv) ]
    ++ ifEntries "aliases" .text u.aliases

@[simp] theorem BuildUnit.toDocument_inj {u v : BuildUnit} :
    u.toDocument = v.toDocument ↔ u = v := by
  cases u
  cases v
  simp [toDocument, List.map_inj_right, ifEntries_inj]

def Reason.toDocument : Reason → Document
  | condition target platform viaFallback =>
    .table
      [ ("target", .text target),
        ("platform", .text platform.text),
        ("cause",
          .table [("cause", .text "unsatisfied_condition"), ("via_default", .bool viaFallback)]) ]
  | dependency target platform reason =>
    .table
      [ ("target", .text target),
        ("platform", .text platform.text),
        ("cause", .table [("cause", .text "dependency"), ("reason", reason.toDocument)]) ]

namespace Resolved

def toDocument (r : Resolved) : Document :=
  .table
    [ ("rule", r.rule.toDocument),
      ("unit", r.unit.toDocument),
      ("closure", .list (r.closure.map BuildUnit.toDocument)) ]

@[simp] theorem toDocument_inj {r s : Resolved} : r.toDocument = s.toDocument ↔ r = s := by
  cases r
  cases s
  simp [toDocument, List.map_inj_right]

/-- The text that the fingerprint is taken of. -/
def encoded (r : Resolved) : String := r.toDocument.compact

def fingerprint (r : Resolved) : String := Digest.sha256Hex r.encoded

end Resolved

end BuildRules
