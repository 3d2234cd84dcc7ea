import BuildRules.Proofs.Resolution.Embedding
import BuildRules.Proofs.Resolution.Refusal

/-!
# Parts of a resolution

A unit of a closure can be resolved on its own. Its own graph lies within the graph it was part of,
where more may be asked of each unit, so what was compatible as a part is compatible alone, with no
more features and dependencies. Main statement: `resolve_of_mem_closure`.
-/

namespace BuildRules

namespace UnitGraph

variable (g : UnitGraph)

/-- The graph below another rule at one of the two platforms. -/
def below (rule : Rule) (platform : Platform) : UnitGraph := { g with root := rule, platform }

/-- The rule is one of the table, and its unit is below the root. -/
structure IsBelow (rule : Rule) (platform : Platform) : Prop where
  get?_eq : g.table.get? rule.name = some rule
  has : g.Has ⟨rule.name, platform⟩
  ne_root : ⟨rule.name, platform⟩ ≠ g.rootKey

variable {g} in
/-- The graph below a unit lies within the graph of the root. -/
theorem IsBelow.embeds {rule : Rule} {platform : Platform} (h : g.IsBelow rule platform) :
    (g.below rule platform).Embeds g where
  host_eq := rfl
  table := .refl g.table
  has := h.has
  root := by
    refine ⟨rule, ?_, .refl rule⟩
    exact (if_neg h.ne_root).trans h.get?_eq

end UnitGraph

namespace Resolver

section

variable {g : UnitGraph} {flags : List String} {requested : Requests}
variable {outcome : Walk.Outcome} {walk : Walk} {rule : Rule} {platform : Platform}

/-- Nothing is wrong below a unit if nothing is wrong below the root. -/
theorem LastWalk.not_faulty_below (h : LastWalk g flags requested outcome walk)
    (hbelow : g.IsBelow rule platform) : ¬ (g.below rule platform).Faulty :=
  h.not_faulty_of_embeds hbelow.embeds

theorem LastWalk.not_barred_below {unit : BuildUnit} {u : UnitKey}
    (h : LastWalk g flags requested (.compatible unit) walk) (hbelow : g.IsBelow rule platform)
    (hu : (g.below rule platform).Has u) : ¬ (g.below rule platform).Barred u :=
  h.not_barred_of_embeds hbelow.embeds hu

/-! ## Units of a closure -/

variable {res : Resolved} {unit : BuildUnit}

theorem IsRead.exists_isBelow (h : IsRead g flags requested walk res)
    (hunit : unit ∈ res.closure) :
    ∃ rule, g.table.get? unit.key.name = some rule ∧ rule.name = unit.key.name ∧
      g.IsBelow rule unit.key.platform := by
  obtain ⟨hmem, hne⟩ := h.mem_closure_iff.1 hunit
  obtain ⟨⟨rule, hrule, -⟩, -⟩ := h.of_mem hmem
  unfold UnitGraph.rule? at hrule
  rw [if_neg hne] at hrule
  have hname : rule.name = unit.key.name := RuleTable.name_of_get? hrule
  refine ⟨rule, hrule, hname, by rw [hname]; exact hrule, ?_, by rw [hname]; exact hne⟩
  rw [hname]
  exact h.has_iff.2 ⟨unit, hmem, rfl⟩

/-- Every unit of a part is in the closure of the whole. -/
theorem IsRead.exists_within (h : IsRead g flags requested walk res)
    (hbelow : g.IsBelow rule platform) {requested' : Requests} {walk' : Walk} {part : Resolved}
    (hpart : IsRead (g.below rule platform) flags requested' walk' part)
    (hunit : unit ∈ part.unit :: part.closure) :
    ∃ whole ∈ res.closure, unit.Within whole := by
  obtain ⟨whole, hwhole, hwithin⟩ := h.exists_within_of_embeds hbelow.embeds hpart hunit
  have hhas := hpart.has_iff.2 ⟨unit, hunit, rfl⟩
  refine ⟨whole, h.mem_closure_iff.2 ⟨hwhole, ?_⟩, hwithin⟩
  rw [← hwithin.key_eq]
  rcases (h.last.has_of_embeds hbelow.embeds hhas).2 with hroot | hne
  · rw [hroot]
    exact hbelow.ne_root
  · exact hne

end

/-- The host of a platform that is built for is also its own host. -/
theorem graph_eq_below (r : Resolver) (rule next : Rule) {platform side : Platform}
    (hside : side = platform ∨ side = r.hostFor platform) :
    r.graph next side = (r.graph rule platform).below next side := by
  have hhost : r.hostFor side = r.hostFor platform := by
    unfold hostFor at hside ⊢
    cases hhost : r.host? with
    | none => simpa [hhost] using hside
    | some host => rfl
  unfold graph UnitGraph.below
  rw [hhost]

theorem exists_compatible {r : Resolver} {rule : Rule} {platform : Platform}
    (hsound : ¬ (r.graph rule platform).Faulty)
    (hfree : ∀ u, (r.graph rule platform).Has u → ¬ (r.graph rule platform).Barred u) :
    ∃ res, r.resolveRule rule platform = .ok (.compatible res) := by
  cases hresult : r.resolveRule rule platform with
  | error e =>
    obtain ⟨requested, hbacked, hrefused⟩ := exists_refused hresult
    exact absurd (hbacked.faulty hrefused) hsound
  | ok resolution =>
    obtain ⟨requested, outcome, walk, hlast, rfl⟩ := exists_lastWalk hresult
    cases outcome with
    | incompatible reason =>
      obtain ⟨u, hu, hbarred⟩ := hlast.exists_barred hlast.done
      exact absurd hbarred (hfree u hu)
    | compatible unit => exact ⟨_, rfl⟩

/-- What is compatible as a part of a resolved target is compatible alone. Alone it has no other
units, and each of them has no other features and dependencies than in the whole. -/
theorem resolve_of_mem_closure {r : Resolver} {rule : Rule} {platform : Platform} {res : Resolved}
    (h : r.resolveRule rule platform = .ok (.compatible res)) {unit : BuildUnit}
    (hunit : unit ∈ res.closure) :
    ∃ part, r.resolve unit.key.name unit.key.platform = .ok (.compatible part) ∧
      part.unit.key = unit.key ∧ ∀ u ∈ part.unit :: part.closure,
        ∃ whole, res.closureUnit? u.key = some whole ∧ u.Within whole := by
  obtain ⟨requested, walk, hread⟩ := exists_isRead h
  obtain ⟨next, hnext, hname, hbelow⟩ := hread.exists_isBelow hunit
  have hgraph := r.graph_eq_below rule next hbelow.has.platform
  rw [resolve_of_get? hnext]
  obtain ⟨part, hpart⟩ : ∃ part, r.resolveRule next unit.key.platform = .ok (.compatible part) := by
    apply exists_compatible
    · rw [hgraph]
      exact hread.last.not_faulty_below hbelow
    · rw [hgraph]
      exact fun u hu => hread.last.not_barred_below hbelow hu
  obtain ⟨requested', walk', hread'⟩ := exists_isRead hpart
  rw [hgraph] at hread'
  refine ⟨part, hpart, ?_, fun u hu => ?_⟩
  · rw [hread'.key_eq]
    unfold UnitGraph.rootKey UnitGraph.below
    rw [hname]
  · obtain ⟨whole, hwhole, hwithin⟩ := hread.exists_within hbelow hread' hu
    exact ⟨whole, hwithin.key_eq ▸ hread.closureUnit?_eq_some hwhole, hwithin⟩

/-- The unit of `base` below `relayed`. Alone it does not have the feature. -/
def relayedBase : BuildUnit where
  key := ⟨"base", ⟨"linux"⟩⟩
  kind := .library
  features := .ofList ["simd"]
  compilerFlags := []
  deps := []
  scriptEnv := ∅
  aliases := ∅

theorem resolve_of_mem_closure_relay :
    relay.resolveRule relayed ⟨"linux"⟩ = .ok (.compatible relayResult) ∧
      relayedBase ∈ relayResult.closure ∧
      ∃ part, relay.resolve "base" ⟨"linux"⟩ = .ok (.compatible part) ∧
        part.unit.key = relayedBase.key ∧ ∀ u ∈ part.unit :: part.closure,
          ∃ whole, relayResult.closureUnit? u.key = some whole ∧ u.Within whole := by
  have hbase : relayedBase ∈ relayResult.closure := by decide +kernel
  exact ⟨resolveRule_relay, hbase, resolve_of_mem_closure resolveRule_relay hbase⟩

end Resolver

end BuildRules
