import PinnedImports.Proofs.Eligibility
import PinnedImports.Proofs.Pass.Simulation
import PinnedImports.Proofs.Repetitions

/-!
# Which package names are looked up

The judgement of a package looks a package name up only for imports of repositories that give no name
themselves (`needsName`). What it has learned of a path is remembered, be it a name or a failure, so
the lookups are those of the paths that need a name, each once and in the order of their first import
(`learned_lookupEach`). All files are judged by the one answer for a path, whatever another lookup
would have answered (`ofFiles_looksUp`).
-/

set_option autoImplicit false

namespace PinnedImports.Analysis

/-! ## Paths that need a name -/

/-- Whether the judgement of an import asks for the name of its package: the import is of a repository
outside of the registry's namespace and gives no name. -/
def needsName (spec : Go.Import) : Bool :=
  spec.name.isNone &&
    (Repository.ofImportPath? spec.path).any fun repository => !repository.isCanonical

/-- The paths of the imports that need a name, in the order of the imports. -/
def unnamedPaths (found : List (SourceFile × Go.Import)) : List String :=
  (found.filter fun entry => needsName entry.2).map fun entry => entry.2.path

theorem needsName_iff {spec : Go.Import} :
    needsName spec = true ↔ spec.name = none ∧
      ∃ repository, Repository.ofImportPath? spec.path = some repository ∧
        ¬ repository.isCanonical = true := by
  simp [needsName, Option.any_eq_true, Option.isNone_iff_eq_none]

theorem mem_unnamedPaths {files : List SourceFile} {path : String} :
    path ∈ unnamedPaths (occurrences files) ↔
      ∃ file ∈ files, ∃ spec ∈ file.source.imports, spec.path = path ∧ needsName spec = true := by
  rw [unnamedPaths, List.mem_map]
  constructor
  · rintro ⟨⟨file, spec⟩, hentry, rfl⟩
    obtain ⟨hmem, hneeds⟩ := List.mem_filter.1 hentry
    obtain ⟨hfile, hspec⟩ := mem_occurrences.1 hmem
    exact ⟨file, hfile, spec, hspec, rfl, hneeds⟩
  · rintro ⟨file, hfile, spec, hspec, rfl, hneeds⟩
    exact ⟨(file, spec), List.mem_filter.2 ⟨mem_occurrences.2 ⟨hfile, hspec⟩, hneeds⟩, rfl⟩

theorem unnamedPaths_cons_of_not {file : SourceFile} {spec : Go.Import}
    (h : ¬ needsName spec = true) (rest : List (SourceFile × Go.Import)) :
    unnamedPaths ((file, spec) :: rest) = unnamedPaths rest := by
  rw [unnamedPaths, unnamedPaths, List.filter_cons, if_neg h]

theorem unnamedPaths_cons {file : SourceFile} {spec : Go.Import} (h : needsName spec = true)
    (rest : List (SourceFile × Go.Import)) :
    unnamedPaths ((file, spec) :: rest) = spec.path :: unnamedPaths rest := by
  rw [unnamedPaths, unnamedPaths, List.filter_cons, if_pos h, List.map_cons]

/-! ## Lookups in turn -/

variable {σ : Type}

/-- The names of packages looked up one after the other, and the world behind the lookups. -/
def lookupEach (lookup : String → σ → NameAnswer × σ) :
    List String → σ → List (String × NameAnswer) × σ
  | [], world => ([], world)
  | path :: rest, world =>
    let first := lookup path world
    let others := lookupEach lookup rest first.2
    ((path, first.1) :: others.1, others.2)

/-- The lookup with every question and its answer written down behind the state of the world. -/
def logging (lookup : String → σ → NameAnswer × σ) (path : String)
    (world : σ × List (String × NameAnswer)) : NameAnswer × σ × List (String × NameAnswer) :=
  ((lookup path world.1).1, (lookup path world.1).2, world.2 ++ [(path, (lookup path world.1).1)])

variable {lookup : String → σ → NameAnswer × σ}

theorem map_fst_lookupEach (lookup : String → σ → NameAnswer × σ) (paths : List String)
    (world : σ) :
    (lookupEach lookup paths world).1.map (·.1) = paths := by
  induction paths generalizing world with
  | nil => rfl
  | cons path rest ih => rw [lookupEach, List.map_cons, ih]

/-- The lookups that are written down are those that are made. -/
theorem lookupEach_logging (paths : List String) (world : σ) (log : List (String × NameAnswer)) :
    (lookupEach (logging lookup) paths (world, log)).2 =
      ((lookupEach lookup paths world).2, log ++ (lookupEach lookup paths world).1) := by
  induction paths generalizing world log with
  | nil => rw [lookupEach, lookupEach, List.append_nil]
  | cons path rest ih =>
    rw [lookupEach, lookupEach]
    simp only [logging, ih, List.append_assoc, List.singleton_append]

/-! ## What a judgement looks up -/

/-- An import that needs no name changes neither the names that are known nor the world. -/
theorem judge_of_not_needsName {file : SourceFile} {spec : Go.Import} {repository : Repository}
    (hrepository : Repository.ofImportPath? spec.path = some repository)
    (h : ¬ needsName spec = true) (known : Dictionary NameAnswer) (world : σ) :
    (judge lookup file spec repository known world).2 = (known, world) := by
  by_cases hcanonical : repository.isCanonical = true
  · rw [judge_of_canonical hcanonical]
  · cases hname : spec.name with
    | some name => rw [judge_of_named hcanonical hname]
    | none => exact absurd (needsName_iff.2 ⟨hname, repository, hrepository, hcanonical⟩) h

theorem keptAmong_cons {file : SourceFile} {spec : Go.Import} {repository : Repository}
    (h : Repository.ofImportPath? spec.path = some repository)
    (rest : List (SourceFile × Go.Import)) (known : Dictionary NameAnswer) (world : σ) :
    (keptAmong lookup ((file, spec) :: rest) known world).2 =
      (keptAmong lookup rest (judge lookup file spec repository known world).2.1
        (judge lookup file spec repository known world).2.2).2 := by
  rw [keptAmong, h]

theorem keptAmong_cons_of_none {file : SourceFile} {spec : Go.Import}
    (h : Repository.ofImportPath? spec.path = none) (rest : List (SourceFile × Go.Import))
    (known : Dictionary NameAnswer) (world : σ) :
    (keptAmong lookup ((file, spec) :: rest) known world).2 =
      (keptAmong lookup rest known world).2 := by
  rw [keptAmong, h]

/-- What the judgement of some imports learns and what it does to the world: it looks up the paths
that need a name and have none, each once. -/
structure Learns (lookup : String → σ → NameAnswer × σ) (known : Dictionary NameAnswer) (world : σ)
    (paths : List String) (names : Dictionary NameAnswer) (after : σ) : Prop where
  after_eq : after = (lookupEach lookup (known.missing paths) world).2
  get?_eq : ∀ path, names.get? path = (known.get? path).or
    ((lookupEach lookup (known.missing paths) world).1.lookup path)

/-- A path that is known is not looked up. -/
theorem Learns.cons_known {known names : Dictionary NameAnswer} {world after : σ} {path : String}
    {answer : NameAnswer} {paths : List String} (hknown : known.get? path = some answer)
    (h : Learns lookup known world paths names after) :
    Learns lookup known world (path :: paths) names after := by
  have hmissing := Dictionary.missing_cons_of_known hknown paths
  constructor
  · rw [hmissing]
    exact h.after_eq
  · rw [hmissing]
    exact h.get?_eq

/-- A path that is not known is looked up, and its answer is known from then on. -/
theorem Learns.cons_unknown {known names : Dictionary NameAnswer} {world after : σ} {path : String}
    {paths : List String} (hunknown : known.get? path = none)
    (h : Learns lookup (known.insert path (lookup path world).1) (lookup path world).2 paths names
      after) :
    Learns lookup known world (path :: paths) names after := by
  have hmissing := Dictionary.missing_cons_of_unknown hunknown (lookup path world).1 paths
  refine ⟨?_, fun other => ?_⟩
  · rw [hmissing]
    exact h.after_eq
  · rw [hmissing, h.get?_eq other, lookupEach, List.lookup_cons, Dictionary.get?_insert]
    by_cases heq : other = path
    · rw [if_pos heq, heq, hunknown, beq_self_eq_true]
      rfl
    · rw [if_neg heq, beq_false_of_ne heq]

/-- **Each path that needs a name is looked up the first time it does.** -/
theorem learned_lookupEach (lookup : String → σ → NameAnswer × σ)
    (found : List (SourceFile × Go.Import)) (known : Dictionary NameAnswer) (world : σ) :
    Learns lookup known world (unnamedPaths found) (learned lookup found known world)
      (keptAmong lookup found known world).2 := by
  -- The induction is on the imports; what is known grows with the answer to the first lookup.
  induction found generalizing known world with
  | nil => exact ⟨rfl, fun _ => (Option.or_none ..).symm⟩
  | cons entry rest ih =>
    obtain ⟨file, spec⟩ := entry
    cases hrepository : Repository.ofImportPath? spec.path with
    | none =>
      have hnot : ¬ needsName spec = true := by
        rw [needsName_iff]
        rintro ⟨-, repository, hsome, -⟩
        rw [hrepository] at hsome
        simp at hsome
      rw [unnamedPaths_cons_of_not hnot, learned_cons_of_none hrepository,
        keptAmong_cons_of_none hrepository]
      exact ih known world
    | some repository =>
      rw [learned_cons hrepository, keptAmong_cons hrepository]
      by_cases hneeds : needsName spec = true
      · obtain ⟨hname, other, hother, hcanonical⟩ := needsName_iff.1 hneeds
        rw [hrepository, Option.some.injEq] at hother
        subst hother
        rw [unnamedPaths_cons hneeds, judge_of_unnamed hcanonical hname]
        cases hknown : known.get? spec.path with
        | some answer =>
          rw [nameOf, hknown]
          exact (ih known world).cons_known hknown
        | none =>
          rw [nameOf, hknown]
          exact (ih _ _).cons_unknown hknown
      · rw [unnamedPaths_cons_of_not hneeds, judge_of_not_needsName hrepository hneeds]
        exact ih known world

/-! ## One answer for a path -/

/-- The imports that are kept are those with a reason by the names that are learned. -/
theorem kept_ofFiles (lookup : String → σ → NameAnswer × σ) (files : List SourceFile) (world : σ) :
    (ofFiles lookup files world).1.kept = (occurrences files).filterMap fun entry =>
      (reason? (names lookup files world) entry.1 entry.2).map
        (⟨entry.2.path, entry.1.path, ·⟩) :=
  keptAmong_eq _ _ _

/-- The paths that the judgement of some files looks up, in turn. -/
def soughtPaths (files : List SourceFile) : List String :=
  (unnamedPaths (occurrences files)).eraseDups

theorem ofFiles_snd (lookup : String → σ → NameAnswer × σ) (files : List SourceFile) (world : σ) :
    (ofFiles lookup files world).2 = (lookupEach lookup (soughtPaths files) world).2 := by
  have h := (learned_lookupEach lookup (occurrences files) ∅ world).after_eq
  rw [Dictionary.missing_empty] at h
  exact h

/-- The names that are learned are the answers to the lookups. -/
theorem names_eq_ofList (lookup : String → σ → NameAnswer × σ) (files : List SourceFile)
    (world : σ) :
    names lookup files world = .ofList (lookupEach lookup (soughtPaths files) world).1 := by
  have h := (learned_lookupEach lookup (occurrences files) ∅ world).get?_eq
  rw [Dictionary.missing_empty] at h
  apply Dictionary.ext_get?
  intro path
  rw [Dictionary.get?_ofList_of_nodup, names, h path, Dictionary.get?_empty, Option.none_or]
  · rfl
  · rw [map_fst_lookupEach]
    exact nodup_eraseDups _

/-- The lookups that a judgement makes are those of the sought paths, and writing them down does not
change it. -/
theorem ofFiles_logging (lookup : String → σ → NameAnswer × σ) (files : List SourceFile)
    (world : σ) :
    ofFiles (logging lookup) files (world, []) =
      ((ofFiles lookup files world).1, (ofFiles lookup files world).2,
        (lookupEach lookup (soughtPaths files) world).1) := by
  have hsame : ∀ path (logged : σ × List (String × NameAnswer)) (plain : σ), logged.1 = plain →
      (logging lookup path logged).1 = (lookup path plain).1 ∧
        (logging lookup path logged).2.1 = (lookup path plain).2 := by
    rintro path logged plain rfl
    exact ⟨rfl, rfl⟩
  have hworlds := ofFiles_related (R := fun logged plain => logged.1 = plain) hsame files
    (s := (world, [])) rfl
  apply Prod.ext hworlds.1
  rw [ofFiles_snd, lookupEach_logging, List.nil_append, ofFiles_snd]

/-- A lookup that failed, with what is told of it. -/
def failure? : String × NameAnswer → Option (String × String)
  | (path, .error message) => some (path, message)
  | (_, .ok _) => none

/-- The judgement `a` of some files is one by the answers of a log of lookups. -/
structure JudgedBy (log : List (String × NameAnswer)) (files : List SourceFile) (a : Analysis) :
    Prop where
  /-- No path is looked up twice. -/
  once : (log.map (·.1)).Nodup
  /-- The paths that need a name are looked up, and no other ones. -/
  sought : ∀ path, path ∈ log.map (·.1) ↔
    ∃ file ∈ files, ∃ spec ∈ file.source.imports, spec.path = path ∧ needsName spec = true
  /-- The lookups stand in the order of the first imports that need them. -/
  inOrder : log.Pairwise fun first second =>
    (unnamedPaths (occurrences files)).idxOf first.1 <
      (unnamedPaths (occurrences files)).idxOf second.1
  /-- Every import in every file is judged with the names of the log. -/
  kept : a.kept = (occurrences files).filterMap fun entry =>
    (reason? (.ofList log) entry.1 entry.2).map (⟨entry.2.path, entry.1.path, ·⟩)
  /-- An import that needs a name is judged by the answer about its path. -/
  answered : ∀ file ∈ files, ∀ spec ∈ file.source.imports, needsName spec = true →
    ∃ answer, (spec.path, answer) ∈ log ∧ reason? (.ofList log) file spec =
      match answer with
      | .ok name => keepReason? file name
      | .error message => some (.unknownName message)
  /-- A lookup that failed disables its path, through all imports that give no name. -/
  failed : ∀ path message, (path, .error message) ∈ log → a.disabled.contains path = true ∧
    ∀ file ∈ files, ∀ spec ∈ file.source.imports, spec.path = path → spec.name = none →
      ⟨path, file.path, .unknownName message⟩ ∈ a.kept
  /-- The lookups that failed are told, each once. -/
  unresolved : a.unresolved = log.filterMap failure?

/-! ### Failures -/

/-- What is told of a path with these names. -/
def failureAt? (names : Dictionary NameAnswer) (path : String) : Option (String × String) :=
  (names.get? path).bind fun answer => failure? (path, answer)

theorem path_of_failureAt? {names : Dictionary NameAnswer} {path : String}
    {entry : String × String} (h : failureAt? names path = some entry) : entry.1 = path := by
  rw [failureAt?, Option.bind_eq_some_iff] at h
  obtain ⟨answer, -, h⟩ := h
  cases answer with
  | ok name => simp [failure?] at h
  | error message =>
    rw [failure?, Option.some.injEq] at h
    rw [← h]

/-- Of entries that are found by their paths those of the first occurrences remain. -/
theorem go_filterMap {g : String → Option (String × String)}
    (hpath : ∀ path entry, g path = some entry → entry.1 = path) (paths seen : List String) :
    unresolved.go seen (paths.filterMap g) =
      (paths.filter fun path => !seen.contains path).eraseDups.filterMap g := by
  induction paths generalizing seen with
  | nil => rfl
  | cons path rest ih =>
    -- A path that was seen is dropped; another one is taken out of the rest where it is told.
    have hrest : ∀ seen : List String,
        ((rest.filter fun other => !seen.contains other).filter fun other => !other == path) =
          rest.filter fun other => !(path :: seen).contains other := by
      intro seen
      rw [List.filter_filter]
      apply List.filter_congr
      intro other _
      rw [List.contains_cons, Bool.not_or]
    rw [List.filterMap_cons, List.filter_cons]
    cases hentry : g path with
    | none =>
      simp only [ih seen]
      split
      · simp only [List.eraseDups_cons, List.filterMap_cons, hentry]
        exact (filterMap_eraseDups_filter_of_none hentry _).symm
      · rfl
    | some entry =>
      simp only [unresolved.go, hpath path entry hentry]
      by_cases hseen : seen.contains path = true
      · rw [if_pos hseen, if_neg (by rw [hseen]; decide), ih seen]
      · rw [if_neg hseen, if_pos (by simpa using hseen), List.eraseDups_cons, hrest,
          List.filterMap_cons, hentry, ih (path :: seen)]

/-- No use of an import makes its name unknown. -/
theorem keepReason?_ne_unknownName (file : SourceFile) (name message : String) :
    keepReason? file name ≠ some (.unknownName message) := by
  unfold keepReason?
  split
  · simp
  · cases file.typeComparison? name <;> simp

/-- An import that needs a name is judged by what is known of its path. -/
theorem reason?_of_needsName {names : Dictionary NameAnswer} {file : SourceFile}
    {spec : Go.Import} (h : needsName spec = true) :
    reason? names file spec =
      match names.get? spec.path with
      | some (.ok name) => keepReason? file name
      | some (.error message) => some (.unknownName message)
      | none => none := by
  obtain ⟨hname, repository, hrepository, hcanonical⟩ := needsName_iff.1 h
  rcases hget : names.get? spec.path with _ | message | name <;>
    simp only [reason?, hrepository, if_neg hcanonical, effectiveName?, hname, hget]

/-- Only an import that needs a name can have an unknown one. -/
theorem needsName_of_unknownName {names : Dictionary NameAnswer} {file : SourceFile}
    {spec : Go.Import} {message : String}
    (h : reason? names file spec = some (.unknownName message)) : needsName spec = true := by
  unfold reason? at h
  cases hrepository : Repository.ofImportPath? spec.path with
  | none => simp [hrepository] at h
  | some repository =>
    by_cases hcanonical : repository.isCanonical = true
    · simp [hrepository, hcanonical] at h
    · cases hname : spec.name with
      | none => exact needsName_iff.2 ⟨hname, repository, hrepository, hcanonical⟩
      | some name =>
        simp only [hrepository, if_neg hcanonical, effectiveName?, hname] at h
        exact absurd h (keepReason?_ne_unknownName file name message)

/-- What is told of a kept import whose package name is not known. -/
def unknown? (kept : KeptImport) : Option (String × String) :=
  match kept.reason with
  | .unknownName message => some (kept.path, message)
  | _ => none

/-- The judgement of an import tells that its lookup failed. -/
theorem bind_unknown?_reason? (names : Dictionary NameAnswer) (file : SourceFile)
    (spec : Go.Import) :
    ((reason? names file spec).map (⟨spec.path, file.path, ·⟩)).bind unknown? =
      if needsName spec = true then failureAt? names spec.path else none := by
  by_cases hneeds : needsName spec = true
  · rw [if_pos hneeds, reason?_of_needsName hneeds, failureAt?]
    rcases names.get? spec.path with _ | message | name
    · rfl
    · rfl
    · simp only [Option.bind_some, failure?]
      cases hreason : keepReason? file name with
      | none => rfl
      | some reason =>
        cases reason with
        | unknownName message => exact (keepReason?_ne_unknownName file name message hreason).elim
        | _ => rfl
  · rw [if_neg hneeds]
    cases hreason : reason? names file spec with
    | none => rfl
    | some reason =>
      cases reason with
      | unknownName message => exact absurd (needsName_of_unknownName hreason) hneeds
      | _ => rfl

/-- The paths whose lookup failed are told in the order of the lookups. -/
theorem unresolved_ofFiles (lookup : String → σ → NameAnswer × σ) (files : List SourceFile)
    (world : σ) :
    (ofFiles lookup files world).1.unresolved =
      (soughtPaths files).filterMap (failureAt? (names lookup files world)) := by
  have hunresolved : (ofFiles lookup files world).1.unresolved =
      unresolved.go [] ((ofFiles lookup files world).1.kept.filterMap unknown?) := rfl
  have hneeding : (fun entry : SourceFile × Go.Import =>
      if needsName entry.2 = true then failureAt? (names lookup files world) entry.2.path
      else none) = fun entry => if needsName entry.2 = true then
        (failureAt? (names lookup files world) ∘ fun entry => entry.2.path) entry else none := rfl
  rw [hunresolved, kept_ofFiles, List.filterMap_filterMap]
  simp only [bind_unknown?_reason?]
  rw [hneeding, ← List.filterMap_filter, ← List.filterMap_map, ← unnamedPaths,
    go_filterMap fun _ _ => path_of_failureAt?, soughtPaths]
  simp

/-! ### Judgements -/

theorem mem_soughtPaths {files : List SourceFile} {path : String} :
    path ∈ soughtPaths files ↔
      ∃ file ∈ files, ∃ spec ∈ file.source.imports, spec.path = path ∧ needsName spec = true := by
  rw [soughtPaths, List.mem_eraseDups, mem_unnamedPaths]

section

variable {files : List SourceFile} {log : List (String × NameAnswer)}

theorem nodup_of_sought (hpaths : log.map (·.1) = soughtPaths files) : (log.map (·.1)).Nodup := by
  rw [hpaths]
  exact nodup_eraseDups _

theorem mem_paths_iff (hpaths : log.map (·.1) = soughtPaths files) {path : String} :
    path ∈ log.map (·.1) ↔
      ∃ file ∈ files, ∃ spec ∈ file.source.imports, spec.path = path ∧ needsName spec = true := by
  rw [hpaths, mem_soughtPaths]

/-- The answer about a path is the one that is known of it. -/
theorem get?_of_mem (hpaths : log.map (·.1) = soughtPaths files) {path : String}
    {answer : NameAnswer} (h : (path, answer) ∈ log) :
    (Dictionary.ofList log).get? path = some answer := by
  have honce := nodup_of_sought hpaths
  rw [Dictionary.get?_ofList_of_nodup honce, Dictionary.lookup_eq_some_iff_of_nodup honce]
  exact h

theorem exists_answer (hpaths : log.map (·.1) = soughtPaths files) {file : SourceFile}
    (hfile : file ∈ files) {spec : Go.Import} (hspec : spec ∈ file.source.imports)
    (hneeds : needsName spec = true) :
    ∃ answer, (spec.path, answer) ∈ log ∧ reason? (.ofList log) file spec =
      match answer with
      | .ok name => keepReason? file name
      | .error message => some (.unknownName message) := by
  have hsought := (mem_paths_iff hpaths).2 ⟨file, hfile, spec, hspec, rfl, hneeds⟩
  obtain ⟨⟨path, answer⟩, hmem, hpath⟩ := List.mem_map.1 hsought
  simp only at hpath
  subst hpath
  refine ⟨answer, hmem, ?_⟩
  rw [reason?_of_needsName hneeds, get?_of_mem hpaths hmem]
  cases answer <;> rfl

/-- A path whose lookup failed is sought for another import, and so for each that gives no name. -/
theorem reason?_of_failed (hpaths : log.map (·.1) = soughtPaths files) {file : SourceFile}
    {spec : Go.Import} {message : String} (hmem : (spec.path, .error message) ∈ log)
    (hname : spec.name = none) : reason? (.ofList log) file spec = some (.unknownName message) := by
  obtain ⟨-, -, other, -, hother, hneeds⟩ :=
    (mem_paths_iff hpaths).1 (List.mem_map.2 ⟨_, hmem, rfl⟩)
  obtain ⟨-, hrepository⟩ := needsName_iff.1 hneeds
  rw [hother] at hrepository
  have hneeds : needsName spec = true := needsName_iff.2 ⟨hname, hrepository⟩
  rw [reason?_of_needsName hneeds, get?_of_mem hpaths hmem]

end

/-- The judgement is one by the answers to the lookups. -/
theorem judgedBy_lookupEach (lookup : String → σ → NameAnswer × σ) (files : List SourceFile)
    (world : σ) :
    JudgedBy (lookupEach lookup (soughtPaths files) world).1 files
      (ofFiles lookup files world).1 := by
  -- From here on only the paths of the log matter, and that each has one answer.
  have hpaths := map_fst_lookupEach lookup (soughtPaths files) world
  have hunresolved := unresolved_ofFiles lookup files world
  have hkept := kept_ofFiles lookup files world
  rw [names_eq_ofList] at hkept hunresolved
  generalize (lookupEach lookup (soughtPaths files) world).1 = log at hpaths hkept hunresolved ⊢
  have hfailed : ∀ path message, (path, .error message) ∈ log →
      ∀ file ∈ files, ∀ spec ∈ file.source.imports, spec.path = path → spec.name = none →
        ⟨path, file.path, .unknownName message⟩ ∈ (ofFiles lookup files world).1.kept := by
    rintro path message hmem file hfile spec hspec rfl hname
    rw [hkept, List.mem_filterMap]
    refine ⟨(file, spec), mem_occurrences.2 ⟨hfile, hspec⟩, ?_⟩
    simp only [reason?_of_failed hpaths hmem hname, Option.map_some]
  constructor
  case once => exact nodup_of_sought hpaths
  case sought => exact fun path => mem_paths_iff hpaths
  case inOrder =>
    have hordered := pairwise_idxOf_eraseDups (unnamedPaths (occurrences files))
    rw [← soughtPaths, ← hpaths, List.pairwise_map] at hordered
    exact hordered
  case kept => exact hkept
  case answered => exact fun file hfile spec hspec => exists_answer hpaths hfile hspec
  case failed =>
    intro path message hmem
    refine ⟨?_, hfailed path message hmem⟩
    obtain ⟨file, hfile, spec, hspec, hpath, hneeds⟩ :=
      (mem_paths_iff hpaths).1 (List.mem_map.2 ⟨_, hmem, rfl⟩)
    exact mem_kept_iff_disabled.1 ⟨_, hfailed path message hmem file hfile spec hspec hpath
      (needsName_iff.1 hneeds).1, rfl⟩
  case unresolved =>
    rw [hunresolved, ← hpaths, List.filterMap_map]
    apply List.filterMap_congr
    rintro ⟨path, answer⟩ hmem
    simp only [Function.comp_apply, failureAt?, get?_of_mem hpaths hmem, Option.bind_some]

/-- **One name per path.** Whatever a lookup answers from call to call, the judgement of some files
looks up exactly the paths that need a name, each once and in the order of the first imports that need
them. It judges all imports in all files by these answers: a lookup that failed disables its path
through every import that gives no name, and is told once. -/
theorem ofFiles_looksUp (lookup : String → σ → NameAnswer × σ) (files : List SourceFile)
    (world : σ) :
    ∃ log : List (String × NameAnswer),
      ofFiles (logging lookup) files (world, []) =
        ((ofFiles lookup files world).1, (ofFiles lookup files world).2, log) ∧
      lookupEach lookup (log.map (·.1)) world = (log, (ofFiles lookup files world).2) ∧
      JudgedBy log files (ofFiles lookup files world).1 := by
  refine ⟨(lookupEach lookup (soughtPaths files) world).1, ofFiles_logging lookup files world, ?_,
    judgedBy_lookupEach lookup files world⟩
  rw [map_fst_lookupEach, ofFiles_snd]

/-- A lookup that fails only at first is made once for two files, and the path is kept in both. -/
example : ((SourceFile.parse? "p/a.go" "package p\nimport \"github.com/a/b\"\n").bind fun first =>
    (SourceFile.parse? "p/b.go" "package p\nimport \"github.com/a/b\"\n").map fun second =>
      let lookup (path : String) (n : Nat) : NameAnswer × Nat :=
        (if n = 0 then .error "offline" else .ok path, n + 1)
      let judged := ofFiles (logging lookup) [first, second] (0, [])
      (judged.2.1, judged.1.kept.map (·.file), judged.1.unresolved)) =
    some (1, ["p/a.go", "p/b.go"], [("github.com/a/b", "offline")]) := by
  decide +kernel

end PinnedImports.Analysis
