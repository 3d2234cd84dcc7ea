import BuildRules.Proofs.Configuration.Layers

/-!
# The nearest manifest

A manifest is looked for in a directory, then in the one above it, and so on upward. The directories
above a path are told by its text alone, and where it does not begin at the root the last of them is
the directory that one is in. The first file that is there is taken, whatever it holds: what is
wrong with it is told, and no other file is turned to. Main statement: `load_nearest`.
-/

namespace BuildRules

/-! ## Directories above -/

namespace Path

variable {p q : Path}

/-- The directory that lies some steps above a path. -/
def above? (p : Path) : Nat → Option Path
  | 0 => some p
  | n + 1 => p.parent?.bind fun up => up.above? n

/-- How a path is shortened depends on its own steps only in that there are some. -/
theorem shortened_of_steps {steps : List String} (hsteps : steps ≠ []) (hp : p.steps ≠ [])
    (reversed : List String) : shortened ⟨p.first, steps⟩ reversed = p.shortened reversed := by
  have hrooted : isRooted ⟨p.first, steps⟩ = p.isRooted := by
    simp only [isRooted, List.isEmpty_eq_false_iff.2 hsteps, List.isEmpty_eq_false_iff.2 hp]
  induction reversed with
  | nil => rfl
  | cons step reversed ih => simp only [shortened, ending, hrooted, ih]

/-- Steps that lead nowhere have no directory of their own. -/
theorem shortened_dropWhile (p : Path) (reversed : List String) :
    p.shortened (reversed.dropWhile isIdle) = p.shortened reversed := by
  induction reversed with
  | nil => rfl
  | cons step reversed ih =>
    by_cases hidle : isIdle step
    · simp only [List.dropWhile_cons, hidle, if_true, shortened, ih]
    · simp only [List.dropWhile_cons, hidle, Bool.false_eq_true, if_false]

theorem first_ending (p : Path) (reversed : List String) : (p.ending reversed).first = p.first := by
  unfold ending
  split
  · split <;> rfl
  · rfl

/-- A shortened path is shortened further by the steps that it has left. -/
theorem shortened_ending (hsteps : p.steps ≠ []) (reversed : List String) :
    (p.ending reversed).shortened (p.ending reversed).steps.reverse = p.shortened reversed := by
  rw [← p.shortened_dropWhile reversed]
  unfold ending
  split
  · next hnone =>
    rw [List.reverse_eq_nil_iff.1 hnone]
    split <;> rfl
  · next steps hsome =>
    rw [List.reverse_reverse]
    exact shortened_of_steps hsome hsteps _

theorem parents_ending (hsteps : p.steps ≠ []) (reversed : List String) :
    (p.ending reversed).parents =
      p.shortened reversed ++ if p.first = "" then [] else [here] := by
  rw [parents, shortened_ending hsteps, first_ending]

theorem exists_of_shortened_eq_cons {reversed : List String} {rest : List Path}
    (h : p.shortened reversed = q :: rest) :
    ∃ reversed', q = p.ending reversed' ∧ rest = p.shortened reversed' := by
  induction reversed with
  | nil => cases h
  | cons step reversed ih =>
    rw [shortened] at h
    split at h
    · exact ih h
    · cases h
      exact ⟨reversed, rfl, rfl⟩

/-- Above a path lies the next directory up, and what lies above that. -/
theorem parents_of_parent? (h : p.parent? = some q) : p.parents = q :: q.parents := by
  cases hshort : p.shortened p.steps.reverse with
  | nil =>
    -- no step leads anywhere, so only the directory that one is in can be above
    have hparents : p.parents = if p.first = "" then [] else [here] := by
      rw [parents, hshort, List.nil_append]
    rw [parent?, hparents] at h
    rw [hparents]
    split at h
    · cases h
    · next hfirst =>
      cases h
      rw [if_neg hfirst]
      rfl
  | cons up rest =>
    have hparents : p.parents = up :: (rest ++ if p.first = "" then [] else [here]) := by
      rw [parents, hshort, List.cons_append]
    have hsteps : p.steps ≠ [] := by
      intro hnil
      rw [hnil] at hshort
      cases hshort
    obtain ⟨reversed, rfl, rfl⟩ := exists_of_shortened_eq_cons hshort
    rw [parent?, hparents] at h
    cases h
    rw [hparents, parents_ending hsteps]

/-- Going up one directory at a time leads through all that lie above a path. -/
theorem getElem?_cons_parents (p : Path) (n : Nat) : (p :: p.parents)[n]? = p.above? n := by
  induction n generalizing p with
  | zero => rfl
  | succ n ih =>
    rw [List.getElem?_cons_succ, above?]
    cases hup : p.parent? with
    | none =>
      rw [List.head?_eq_none_iff.1 hup]
      rfl
    | some up =>
      rw [parents_of_parent? hup, ih up]
      rfl

theorem length_shortened_le (p : Path) (reversed : List String) :
    (p.shortened reversed).length ≤ reversed.length := by
  induction reversed with
  | nil => exact Nat.le_refl _
  | cons step reversed ih =>
    rw [shortened]
    split
    · exact Nat.le_succ_of_le ih
    · exact Nat.succ_le_succ ih

/-- The way up ends: each directory has fewer steps, and there is at most one more above the last
of them. -/
theorem above?_eq_none (p : Path) : p.above? (p.steps.length + 2) = none := by
  rw [← getElem?_cons_parents, List.getElem?_eq_none_iff]
  have hshort := p.length_shortened_le p.steps.reverse
  have hlast : (if p.first = "" then [] else [here]).length ≤ 1 := by split <;> simp
  rw [List.length_reverse] at hshort
  simp only [List.length_cons, parents, List.length_append]
  omega

end Path

/-! ## Manifests in files -/

namespace Manifest

/-- A file has a manifest in it. -/
inductive HeldBy : FileState → Manifest → Prop
  | text {content : String} {document : Document} {manifest : Manifest} :
      Toml.parse? content = some document → ofDocument? .toml document = some manifest →
        manifest.validate = .ok () → HeldBy (.text content) manifest

/-- What is wrong with a file that is there and has no manifest in it. -/
inductive Refused : FileState → ConfigError → Prop
  | unreadable : Refused .unreadable .unreadable
  | noDocument {content : String} : Toml.parse? content = none →
      Refused (.text content) .malformed
  | noManifest {content : String} {document : Document} : Toml.parse? content = some document →
      ofDocument? .toml document = none → Refused (.text content) .malformed
  | invalid {content : String} {document : Document} {manifest : Manifest} {e : ConfigError} :
      Toml.parse? content = some document → ofDocument? .toml document = some manifest →
        manifest.validate = .error e → Refused (.text content) e

variable {files : Files} {path : Path} {manifest : Manifest} {e : ConfigError}

theorem ofToml_meets {content : String} {document : Document}
    (hparse : Toml.parse? content = some document) :
    Meets (ofToml document) (HeldBy (.text content)) (Refused (.text content)) := by
  unfold ofToml
  cases hread : ofDocument? .toml document with
  | none => exact Refused.noManifest hparse hread
  | some manifest =>
    cases hvalid : manifest.validate with
    | error e =>
      simp only [orMalformed, bind, Except.bind, hvalid]
      exact Refused.invalid hparse hread hvalid
    | ok =>
      simp only [orMalformed, bind, Except.bind, hvalid]
      exact HeldBy.text hparse hread hvalid

theorem load_meets (hpresent : (files path).isPresent) :
    Meets (load files path) (HeldBy (files path)) (Refused (files path)) := by
  unfold load readToml
  cases hstate : files path with
  | absent => simp [hstate, FileState.isPresent] at hpresent
  | blocked => simp [hstate, FileState.isPresent] at hpresent
  | unreadable => exact Refused.unreadable
  | text content =>
    cases hparse : Toml.parse? content with
    | none =>
      simp only [hparse]
      exact Refused.noDocument hparse
    | some document =>
      simp only [hparse]
      exact ofToml_meets hparse

theorem load_of_heldBy (h : HeldBy (files path) manifest) : load files path = .ok manifest := by
  generalize hstate : files path = state at h
  cases h with
  | text hparse hread hvalid =>
    simp only [load, readToml, ofToml, orMalformed, hstate, hparse, hread, hvalid, bind,
      Except.bind, pure, Except.pure]

theorem load_of_refused (h : Refused (files path) e) : load files path = .error e := by
  generalize hstate : files path = state at h
  cases h with
  | unreadable => simp only [load, readToml, hstate, bind, Except.bind]
  | noDocument hparse => simp only [load, readToml, hstate, hparse, bind, Except.bind]
  | noManifest hparse hread =>
    simp only [load, readToml, ofToml, orMalformed, hstate, hparse, hread, bind, Except.bind]
  | invalid hparse hread hvalid =>
    simp only [load, readToml, ofToml, orMalformed, hstate, hparse, hread, hvalid, bind,
      Except.bind]

end Manifest

/-! ## Looking upward -/

/-- A directory has a file for a manifest. -/
def HasManifest (files : Files) (directory : Path) : Prop :=
  (files (directory.child manifestName)).isPresent

/-- None of the directories less than `n` steps above has a file for a manifest. -/
def NoneBelow (files : Files) (start : Path) (n : Nat) : Prop :=
  ∀ m < n, ∀ directory, start.above? m = some directory → ¬ HasManifest files directory

/-- A directory is the nearest one upward that has a file for a manifest. -/
def IsNearest (files : Files) (start root : Path) : Prop :=
  ∃ n, start.above? n = some root ∧ NoneBelow files start n ∧ HasManifest files root

/-- What is found from a directory upward: the nearest manifest with its directory, or what is wrong
with it, or, where no directory has a file for one, the empty manifest. -/
inductive Finds (files : Files) (start : Path) : Except ConfigError (Manifest × Option Path) → Prop
  | manifest {root : Path} {manifest : Manifest} : IsNearest files start root →
      Manifest.HeldBy (files (root.child manifestName)) manifest →
        Finds files start (.ok (manifest, some root))
  | refused {root : Path} {e : ConfigError} : IsNearest files start root →
      Manifest.Refused (files (root.child manifestName)) e → Finds files start (.error e)
  | none : (∀ n, NoneBelow files start n) → Finds files start (.ok ({}, none))

/-- Other files are the same in the places for manifests, upward as far as the nearest of these. -/
def AgreeUpward (files files' : Files) (start : Path) : Prop :=
  ∀ n directory, start.above? n = some directory → NoneBelow files start n →
    files' (directory.child manifestName) = files (directory.child manifestName)

variable {files files' : Files} {start root : Path}
variable {found : Except ConfigError (Manifest × Option Path)}

theorem manifestRoot?_eq_some_iff : manifestRoot? files start = some root ↔
    IsNearest files start root := by
  rw [manifestRoot?, List.find?_eq_some_iff_getElem]
  constructor
  · rintro ⟨hpresent, n, hlt, hroot, hbelow⟩
    refine ⟨n, ?_, fun m hm directory hdirectory => ?_, hpresent⟩
    · rw [← Path.getElem?_cons_parents, List.getElem?_eq_getElem hlt, hroot]
    · rw [← Path.getElem?_cons_parents, List.getElem?_eq_getElem (Nat.lt_trans hm hlt)]
        at hdirectory
      cases hdirectory
      simpa [HasManifest] using hbelow m hm
  · rintro ⟨n, hroot, hbelow, hpresent⟩
    rw [← Path.getElem?_cons_parents, List.getElem?_eq_some_iff] at hroot
    obtain ⟨hlt, hroot⟩ := hroot
    refine ⟨hpresent, n, hlt, hroot, fun m hm => ?_⟩
    have hm' : m < (start :: start.parents).length := Nat.lt_trans hm hlt
    have hdirectory : start.above? m = some (start :: start.parents)[m] := by
      rw [← Path.getElem?_cons_parents, List.getElem?_eq_getElem]
    simpa [HasManifest] using hbelow m hm _ hdirectory

theorem manifestRoot?_eq_none_iff : manifestRoot? files start = none ↔
    ∀ n, NoneBelow files start n := by
  rw [manifestRoot?, List.find?_eq_none]
  constructor
  · intro h n m _ directory hdirectory
    rw [← Path.getElem?_cons_parents] at hdirectory
    exact h directory (List.mem_of_getElem? hdirectory)
  · intro h directory hmem
    obtain ⟨n, hdirectory⟩ := List.mem_iff_getElem?.1 hmem
    rw [Path.getElem?_cons_parents] at hdirectory
    exact h (n + 1) n (Nat.lt_succ_self n) directory hdirectory

theorem finds_findManifest (files : Files) (start : Path) :
    Finds files start (findManifest files (.above start)) := by
  unfold findManifest
  dsimp only
  split
  · next root hroot =>
    have hnearest : IsNearest files start root := manifestRoot?_eq_some_iff.1 hroot
    obtain ⟨-, -, -, hpresent⟩ := hnearest
    have hload := Manifest.load_meets hpresent
    cases hread : Manifest.load files (root.child manifestName) with
    | ok manifest =>
      rw [hread] at hload
      exact .manifest (manifestRoot?_eq_some_iff.1 hroot) hload
    | error e =>
      rw [hread] at hload
      exact .refused (manifestRoot?_eq_some_iff.1 hroot) hload
  · next hnone => exact .none (manifestRoot?_eq_none_iff.1 hnone)

theorem Finds.findManifest_eq (h : Finds files start found) :
    findManifest files (.above start) = found := by
  unfold findManifest
  cases h with
  | manifest hnearest hheld =>
    simp only [manifestRoot?_eq_some_iff.2 hnearest, Manifest.load_of_heldBy hheld]
    rfl
  | refused hnearest hrefused =>
    simp only [manifestRoot?_eq_some_iff.2 hnearest, Manifest.load_of_refused hrefused]
    rfl
  | none hnone => simp only [manifestRoot?_eq_none_iff.2 hnone]

/-! ## What is out of reach -/

theorem NoneBelow.congr {n : Nat} (h : NoneBelow files start n)
    (hagree : AgreeUpward files files' start) : NoneBelow files' start n := by
  intro m hm directory hdirectory
  have hbelow : NoneBelow files start m := fun k hk => h k (Nat.lt_trans hk hm)
  rw [HasManifest, hagree m directory hdirectory hbelow]
  exact h m hm directory hdirectory

theorem IsNearest.congr (h : IsNearest files start root)
    (hagree : AgreeUpward files files' start) :
    IsNearest files' start root ∧
      files' (root.child manifestName) = files (root.child manifestName) := by
  obtain ⟨n, hroot, hbelow, hpresent⟩ := h
  have hsame := hagree n root hroot hbelow
  refine ⟨⟨n, hroot, hbelow.congr hagree, ?_⟩, hsame⟩
  rw [HasManifest, hsame]
  exact hpresent

/-- Nothing beyond the nearest manifest bears on what is found. -/
theorem Finds.congr (h : Finds files start found) (hagree : AgreeUpward files files' start) :
    Finds files' start found := by
  cases h with
  | manifest hnearest hheld =>
    obtain ⟨hnearest', hsame⟩ := hnearest.congr hagree
    exact .manifest hnearest' (hsame ▸ hheld)
  | refused hnearest hrefused =>
    obtain ⟨hnearest', hsame⟩ := hnearest.congr hagree
    exact .refused hnearest' (hsame ▸ hrefused)
  | none hnone => exact .none fun n => (hnone n).congr hagree

/-! ## Loading from a directory -/

namespace Configuration

variable {manifest : Manifest} {user : UserConfig} {o : Overrides}

/-- Loading goes on with a manifest and its directory: it gives a configuration of the three layers,
unless the overrides are faulty. -/
structure GoesOnWith (result : Except ConfigError Configuration) (manifest : Manifest)
    (root : Option Path) (user : UserConfig) (o : Overrides) : Prop where
  refused : (∃ e, result = .error e) ↔ o.IsFaulty
  loaded : ∀ c, result = .ok c → c.root = root ∧ c.user = user ∧ c.IsLayered manifest user o

theorem GoesOnWith.exists_eq_ok {result : Except ConfigError Configuration} {root : Option Path}
    (h : GoesOnWith result manifest root user o) (ho : ¬ o.IsFaulty) :
    ∃ c, result = .ok c ∧ c.root = root ∧ c.IsLayered manifest user o := by
  cases result with
  | error e => exact absurd (h.refused.1 ⟨e, rfl⟩) ho
  | ok c =>
    obtain ⟨hroot, -, hlayered⟩ := h.loaded c rfl
    exact ⟨c, rfl, hroot, hlayered⟩

theorem root_of_ofLayers {root : Option Path} {c : Configuration}
    (h : ofLayers manifest root user o = .ok c) : c.root = root ∧ c.user = user := by
  simp only [ofLayers, bind_eq_ok_iff] at h
  obtain ⟨settings, -, ⟨⟩, -, heq⟩ := h
  cases heq
  exact ⟨rfl, rfl⟩

theorem goesOnWith_of_findManifest {source : ManifestSource} {root : Option Path}
    (h : findManifest files source = .ok (manifest, root)) (userPath : Option Path)
    (o : Overrides) :
    GoesOnWith (load files source userPath o) manifest root (UserConfig.usable files userPath)
      o where
  refused := by simp only [load_eq_error_iff userPath h, Overrides.exists_check_eq_error_iff]
  loaded c hload := by
    rw [load_eq_ofLayers userPath h] at hload
    obtain ⟨hroot, huser⟩ := root_of_ofLayers hload
    exact ⟨hroot, huser, isLayered_of_ofLayers hload⟩

/-- From whatever directory a configuration is loaded, the way up ends; the manifest is the nearest
one, and what is wrong with that is what loading is refused with; where there is none, the manifest
is empty and has no directory. No other file that might hold a manifest counts. -/
theorem load_nearest (files : Files) (start : Path) (userPath : Option Path) (o : Overrides) :
    start.above? (start.steps.length + 2) = none ∧
      (∀ found, findManifest files (.above start) = found ↔ Finds files start found) ∧
      (∀ e, Finds files start (.error e) → load files (.above start) userPath o = .error e) ∧
      (∀ manifest root, Finds files start (.ok (manifest, root)) →
        GoesOnWith (load files (.above start) userPath o) manifest root
          (UserConfig.usable files userPath) o) ∧
      ∀ files', AgreeUpward files files' start →
        findManifest files' (.above start) = findManifest files (.above start) := by
  have hfinds := finds_findManifest files start
  refine ⟨start.above?_eq_none, fun found => ?_, fun e h => ?_, fun manifest root h => ?_, ?_⟩
  · exact ⟨fun h => h ▸ hfinds, Finds.findManifest_eq⟩
  · rw [load, h.findManifest_eq]
    rfl
  · exact goesOnWith_of_findManifest h.findManifest_eq userPath o
  · intro files' hagree
    exact (hfinds.congr hagree).findManifest_eq

/-- Under a directory with a good manifest lie one whose manifest is cut short and one with a good
manifest of its own, and under each of them one without. -/
def shadowingTree : FileTree where
  files := [
    (["rules.toml"], some "[settings]\njobs = 4\n"),
    (["a", "rules.toml"], some "[settings"),
    (["c", "rules.toml"], some "[settings]\njobs = 2\n")]
  directories := [["a", "b"], ["c", "d"]]

def shadowingFiles : Files := shadowingTree.filesFrom []

theorem load_nearest_shadowing :
    Manifest.load shadowingFiles ⟨manifestName, []⟩ = .ok { settings := { jobs := some 4 } } ∧
      load shadowingFiles (.above ⟨"a", ["b"]⟩) none {} = .error .malformed ∧
      ∃ c, load shadowingFiles (.above ⟨"c", ["d"]⟩) none {} = .ok c ∧
        c.root = some ⟨"c", []⟩ ∧ c.settings.jobs = some 2 := by
  refine ⟨by decide +kernel, ?_, ?_⟩
  · have hnearest : IsNearest shadowingFiles ⟨"a", ["b"]⟩ ⟨"a", []⟩ :=
      manifestRoot?_eq_some_iff.1 (by decide +kernel)
    have hrefused : Finds shadowingFiles ⟨"a", ["b"]⟩ (.error .malformed) :=
      .refused hnearest (.noDocument (by decide +kernel : Toml.parse? "[settings" = none))
    obtain ⟨-, -, hload, -⟩ := load_nearest shadowingFiles ⟨"a", ["b"]⟩ none {}
    exact hload _ hrefused
  · obtain ⟨-, hfinds, -, hload, -⟩ := load_nearest shadowingFiles ⟨"c", ["d"]⟩ none {}
    have hfound : findManifest shadowingFiles (.above ⟨"c", ["d"]⟩) =
        .ok ({ settings := { jobs := some 2 } }, some ⟨"c", []⟩) := by decide +kernel
    have hclean : ¬ Overrides.IsFaulty {} :=
      Overrides.not_isFaulty (.unset rfl) Settings.isValid_empty
    obtain ⟨c, hloaded, hroot, hlayered⟩ := (hload _ _ ((hfinds _).1 hfound)).exists_eq_ok hclean
    refine ⟨c, hloaded, hroot, ?_⟩
    -- no override sets the jobs, so those of the nearest manifest count
    obtain ⟨own, hown, hjobs⟩ := hlayered.jobs
    cases hown with
    | unset => exact hjobs
    | set hset => cases hset

end Configuration

end BuildRules
