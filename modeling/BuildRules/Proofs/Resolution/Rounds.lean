import BuildRules.Proofs.Resolution.Visit
import BuildRules.Resolution.Resolver

/-!
# Rounds of walks

Each walk is made with the requests of the walks before it. Main statements: no request is made that
the graph of units does not ask for (`Backs.merge`), so a walk finds fault only with that graph, and
the last walk goes through all of it (`LastWalk.asked`).
-/

namespace BuildRules

open Relation

namespace UnitGraph

/-- Every request is one that the graph makes. -/
def Backs (g : UnitGraph) (requested : Requests) : Prop :=
  ∀ u, ∀ f ∈ requested.asked u, ∃ asked, g.Asked u asked ∧ f ∈ asked

section

variable {g : UnitGraph} {requested : Requests} {u v : UnitKey}

theorem backs_empty (g : UnitGraph) : g.Backs ∅ :=
  fun _ f hf => absurd hf (SortedSet.not_mem_empty f)

theorem Backs.leads (h : g.Backs requested) (hu : g.Has u) {request : NameSet}
    (hlink : g.Link u (requested.asked u) v request) :
    g.Leads u v ∧ ∃ request', g.Asked v request' ∧ request ⊆ request' := by
  obtain ⟨asked, hasked, hsubset⟩ := hu.asked_together (h u)
  obtain ⟨request', hrequest, hlink'⟩ := hlink.mono hsubset
  exact ⟨⟨asked, request', hasked, hlink'⟩, request', .link hasked hlink', hrequest⟩

/-- With requests that the graph makes, a walk stays within the graph. -/
theorem Backs.has_of_reached (h : g.Backs requested) (hu : g.Reached requested u) : g.Has u := by
  induction hu with
  | refl => exact has_rootKey
  | tail _ hv ih =>
    obtain ⟨request, hlink⟩ := hv
    exact (h.leads ih hlink).1.has

/-- What a walk asks for is asked for by the graph too. -/
theorem Backs.merge {flags : List String} {walk : Walk} (h : g.Backs requested)
    (hwalk : walk.Sound g flags requested) : g.Backs (requested.merge walk.demanded) := by
  intro v f hf
  rcases Requests.mem_asked_merge.1 hf with hf | hf
  · exact h v f hf
  · obtain ⟨u, request, hreached, hlink, hmem⟩ := hwalk.justified v f hf
    obtain ⟨-, request', hasked, hsubset⟩ := h.leads (h.has_of_reached hreached) hlink
    exact ⟨request', hasked, hsubset f hmem⟩

end

end UnitGraph

namespace Resolver

/-- The graph of the units below a rule. -/
def graph (r : Resolver) (rule : Rule) (platform : Platform) : UnitGraph where
  table := r.table
  host := r.hostFor platform
  root := rule
  platform := platform

theorem setting_eq (r : Resolver) (rule : Rule) (platform : Platform) (requested : Requests) :
    r.setting platform requested =
      (r.graph rule platform).setting r.settings.extraFlags requested := rfl

/-- A walk that asked for nothing that was not asked for before. -/
structure LastWalk (g : UnitGraph) (flags : List String) (requested : Requests)
    (outcome : Walk.Outcome) (walk : Walk) : Prop where
  backed : g.Backs requested
  sound : walk.Sound g flags requested
  done : walk.done.get? g.rootKey = some outcome
  covered : ∀ u, walk.demanded.asked u ⊆ requested.asked u

section

variable {g : UnitGraph} {flags : List String} {requested : Requests}
variable {outcome : Walk.Outcome} {walk : Walk} {u v : UnitKey}

/-- The last walk leaves nothing out. -/
theorem LastWalk.closed (h : LastWalk g flags requested outcome walk) :
    g.Closed (fun u => ∃ o, walk.done.get? u = some o) requested.asked where
  root := ⟨outcome, h.done⟩
  link u v request hu hlink := by
    obtain ⟨o, ho⟩ := hu
    obtain ⟨rule, hrule, hsettled⟩ := h.sound.settled u o ho
    refine ⟨hsettled.done_of_follows hrule ⟨request, hlink⟩, ?_⟩
    exact SortedSet.Subset.trans (h.sound.noted u o ho v request hlink) (h.covered v)

/-- The last walk goes through the whole graph, and knows of all that the graph asks. -/
theorem LastWalk.asked (h : LastWalk g flags requested outcome walk) {asked : NameSet}
    (hu : g.Asked u asked) :
    (∃ o, walk.done.get? u = some o) ∧ asked ⊆ requested.asked u :=
  hu.of_closed h.closed

theorem LastWalk.done_iff (h : LastWalk g flags requested outcome walk) :
    (∃ o, walk.done.get? u = some o) ↔ g.Has u := by
  constructor
  · intro hdone
    obtain ⟨o, ho⟩ := hdone
    exact h.backed.has_of_reached (h.sound.reached u o ho)
  · intro hhas
    obtain ⟨asked, hasked⟩ := hhas
    exact (h.asked hasked).1

/-- The links of the last walk are the edges of the graph. -/
theorem LastWalk.follows_iff (h : LastWalk g flags requested outcome walk) (hu : g.Has u) :
    g.Follows requested u v ↔ g.Leads u v := by
  constructor
  · intro hfollows
    obtain ⟨request, hlink⟩ := hfollows
    exact (h.backed.leads hu hlink).1
  · intro hleads
    obtain ⟨asked, request, hasked, hlink⟩ := hleads
    obtain ⟨request', -, hlink'⟩ := hlink.mono (h.asked hasked).2
    exact ⟨request', hlink'⟩

end

/-! ## Settling -/

section

variable (r : Resolver) (rule : Rule) (platform : Platform)

/-- The first visit of a walk. -/
theorem visit_root_meets (requested : Requests) (depth : Nat) :
    Meets (Walk.visit (r.setting platform requested) depth [] rule platform {})
      (Walk.Visited (r.graph rule platform) r.settings.extraFlags requested [] ⟨rule.name, platform⟩
        {})
      (Walk.Justifies (r.graph rule platform) requested) := by
  rw [r.setting_eq rule]
  exact Walk.visit_correct depth [] rule platform {} .start (fun _ => UnitGraph.rule?_rootKey _)
    .empty (by simp)

/-- Walking until nothing new is asked for ends with a last walk, or with what a walk finds wrong. -/
theorem settle_meets (rounds : Nat) {requested : Requests}
    (hbacked : (r.graph rule platform).Backs requested) :
    Meets (r.settle rule platform rounds requested)
      (fun resolution => ∃ requested outcome walk,
        LastWalk (r.graph rule platform) r.settings.extraFlags requested outcome walk ∧
          resolution = walk.resolution rule outcome)
      (fun stop => ∀ e, stop = .refused e → ∃ requested,
        (r.graph rule platform).Backs requested ∧
          (r.graph rule platform).Refused requested e) := by
  induction rounds generalizing requested with
  | zero => rintro e ⟨⟩
  | succ rounds ih =>
    rw [settle]
    refine Meets.bind ((visit_root_meets r rule platform requested r.depthBound).mono (fun _ h => h)
      fun stop hstop e he => ⟨requested, hbacked, hstop e he⟩) ?_
    rintro ⟨outcome, walk⟩ hvisited
    dsimp only
    split
    · next hsame =>
      exact ⟨requested, outcome, walk,
        ⟨hbacked, hvisited.sound, hvisited.done, Requests.merge_eq_self_iff.1 hsame⟩, rfl⟩
    · -- what the walk asked for is what the graph asks for, so the next one can have it too
      exact ih (hbacked.merge hvisited.sound)

end

/-! ## A feature that is handed on -/

/-- A table with two libraries, one of which depends on the other. -/
def relay : Resolver where
  table :=
    ⟨.ofList
      [ ("base", .target (.library "base")),
        ("mid", .target { Target.library "mid" with deps := ["base"] }) ],
      by decide +kernel⟩
  settings := {}
  host? := none

/-- A library that asks `mid` to ask a feature of `base`. -/
def relayed : Rule :=
  .target
    { Target.library "app" with
      features := .ofList ["mid/base/simd"]
      deps := ["mid", "base"] }

/-- What it comes to. -/
def relayResult : Resolved where
  rule := relayed
  unit :=
    { key := ⟨"app", ⟨"linux"⟩⟩, kind := .library, features := ∅, compilerFlags := []
      deps := [⟨"mid", ⟨"linux"⟩⟩, ⟨"base", ⟨"linux"⟩⟩], scriptEnv := ∅, aliases := ∅ }
  closure :=
    [ { key := ⟨"base", ⟨"linux"⟩⟩, kind := .library, features := .ofList ["simd"]
        compilerFlags := [], deps := [], scriptEnv := ∅, aliases := ∅ },
      { key := ⟨"mid", ⟨"linux"⟩⟩, kind := .library, features := ∅, compilerFlags := []
        deps := [⟨"base", ⟨"linux"⟩⟩], scriptEnv := ∅, aliases := ∅ } ]

/-- The feature reaches `base` in the second walk, and the third finds nothing new. -/
theorem resolveRule_relay :
    relay.resolveRule relayed ⟨"linux"⟩ = .ok (.compatible relayResult) := by
  decide +kernel

end Resolver

end BuildRules
