import PinnedImports.Proofs.Analysis
import PinnedImports.Proofs.Imports.Renewal
import PinnedImports.Proofs.Imports.Substitution

/-!
# Judgements behind a substitution

When package names are a fixed function, each import is judged by itself (`verdict?`). Substituting
paths then makes no import eligible that was not: an import that was kept is kept for the same reason,
and a path in the registry's namespace is never eligible (`exists_eligible_before`).
-/

set_option autoImplicit false

namespace PinnedImports

namespace Repository

/-- A path in the registry's namespace belongs to no repository of another host. -/
theorem isCanonical_of_namespace {path : String} {repository : Repository}
    (hpath : registryNamespace.toList <+: path.toList)
    (h : ofImportPath? path = some repository) : repository.isCanonical = true := by
  obtain ⟨rest, hrest⟩ := hpath
  have hgitHub : gitHubKey? path.toList = none := by
    rw [← hrest]
    rfl
  have hgoogle : googleCodeKey? path.toList = none := by
    rw [← hrest]
    rfl
  rw [ofImportPath?] at h
  simp only [hgitHub, hgoogle] at h
  obtain ⟨key, -, rfl⟩ := Option.map_eq_some_iff.1 h
  rfl

end Repository

namespace Analysis

/-! ## Verdicts -/

variable {name : String → NameAnswer}

/-- Why an import has to keep its path, where package names are a fixed function. -/
def verdict? (name : String → NameAnswer) (file : SourceFile) (spec : Go.Import) :
    Option KeepReason :=
  match Repository.ofImportPath? spec.path with
  | none => none
  | some repository =>
    if repository.isCanonical then some .canonical
    else
      match (spec.name.map Except.ok).getD (name spec.path) with
      | .ok used => keepReason? file used
      | .error message => some (.unknownName message)

variable {σ : Type} {lookup : String → σ → NameAnswer × σ}

theorem reason?_eq_verdict? (hlookup : ∀ path world, (lookup path world).1 = name path)
    {files : List SourceFile} (world : σ) {file : SourceFile} (hfile : file ∈ files)
    {spec : Go.Import} (hspec : spec ∈ file.source.imports) :
    reason? (names lookup files world) file spec = verdict? name file spec := by
  rw [reason?, verdict?]
  cases hrepository : Repository.ofImportPath? spec.path with
  | none => rfl
  | some repository =>
    by_cases hcanonical : repository.isCanonical = true
    · simp only [hcanonical, if_true]
    · obtain ⟨answer, hanswer⟩ : ∃ answer,
          effectiveName? (learned lookup (occurrences files) ∅ world) spec = some answer :=
        exists_effectiveName ∅ world (mem_occurrences.2 ⟨hfile, hspec⟩) hrepository hcanonical
      have hsame : (spec.name.map Except.ok).getD (name spec.path) = answer := by
        cases hname : spec.name with
        | some used =>
          rw [effectiveName?, hname, Option.some.injEq] at hanswer
          exact hanswer
        | none =>
          rw [effectiveName?, hname] at hanswer
          rcases learned_get? hanswer with hempty | ⟨w, hw⟩
          · simp at hempty
          · rw [← hw, hlookup]
            rfl
      rw [names, hanswer, hsame]
      cases answer <;> simp only [hcanonical, Bool.false_eq_true, if_false]

/-- A path is kept in a package. -/
def Kept (name : String → NameAnswer) (files : List SourceFile) (path : String) : Prop :=
  ∃ file ∈ files, ∃ spec ∈ file.source.imports,
    spec.path = path ∧ (verdict? name file spec).isSome = true

/-- **The disabled paths are the kept ones.** -/
theorem mem_disabled_iff_kept (hlookup : ∀ path world, (lookup path world).1 = name path)
    {files : List SourceFile} (world : σ) {path : String} :
    (ofFiles lookup files world).1.disabled.contains path = true ↔ Kept name files path := by
  rw [mem_disabled_ofFiles, Kept]
  constructor
  · rintro ⟨file, hfile, spec, hspec, hpath, hreason⟩
    rw [reason?_eq_verdict? hlookup world hfile hspec] at hreason
    exact ⟨file, hfile, spec, hspec, hpath, hreason⟩
  · rintro ⟨file, hfile, spec, hspec, hpath, hverdict⟩
    rw [← reason?_eq_verdict? hlookup world hfile hspec] at hverdict
    exact ⟨file, hfile, spec, hspec, hpath, hverdict⟩

/-- The judgement of some files: it disables the kept paths, and its keys are those of the other
paths. -/
structure Judges (name : String → NameAnswer) (files : List SourceFile) (analysis : Analysis) :
    Prop where
  disabled : ∀ path, analysis.disabled.contains path = true ↔ Kept name files path
  keys : ∀ key, key ∈ analysis.keys ↔ ∃ file ∈ files, ∃ spec ∈ file.source.imports,
    analysis.disabled.contains spec.path = false ∧
      ∃ repository, Repository.ofImportPath? spec.path = some repository ∧ repository.key = key

theorem judges_ofFiles (lookup : String → σ → NameAnswer × σ)
    (hlookup : ∀ path world, (lookup path world).1 = name path) (files : List SourceFile)
    (world : σ) : Judges name files (ofFiles lookup files world).1 where
  disabled _ := mem_disabled_iff_kept hlookup world
  keys _ := mem_keys_ofFiles

theorem Judges.disabled_eq_false {files : List SourceFile} {analysis : Analysis}
    (h : analysis.Judges name files) {path : String} :
    analysis.disabled.contains path = false ↔ ¬ Kept name files path := by
  rw [← h.disabled, Bool.not_eq_true]

/-- An import is kept for its name and its path, by what the file compares. -/
theorem verdict?_isSome_congr {file file' : SourceFile} {spec spec' : Go.Import}
    (hcompared : ∀ used, (file'.typeComparison? used).isSome = (file.typeComparison? used).isSome)
    (hname : spec'.name = spec.name) (hpath : spec'.path = spec.path) :
    (verdict? name file' spec').isSome = (verdict? name file spec).isSome := by
  have hreason : ∀ used, (keepReason? file' used).isSome = (keepReason? file used).isSome := by
    intro used
    rw [keepReason?, keepReason?]
    split
    · rfl
    · rw [Option.isSome_map, Option.isSome_map]
      exact hcompared used
  rw [verdict?, verdict?, hname, hpath]
  cases Repository.ofImportPath? spec.path with
  | none => rfl
  | some repository =>
    by_cases hcanonical : repository.isCanonical = true
    · simp only [hcanonical, if_true]
    · cases (spec.name.map Except.ok).getD (name spec.path) with
      | ok used =>
        simp only [hcanonical, Bool.false_eq_true, if_false]
        exact hreason used
      | error message => simp only [hcanonical, Bool.false_eq_true, if_false]

theorem verdict?_of_canonical {file : SourceFile} {spec : Go.Import} {repository : Repository}
    (h : Repository.ofImportPath? spec.path = some repository)
    (hcanonical : repository.isCanonical = true) :
    verdict? name file spec = some .canonical := by
  rw [verdict?, h]
  exact if_pos hcanonical

/-! ## Files behind a substitution -/

/-- What a pass has substituted in the files of a package: no path that is kept, and none by a path
that could be substituted again. -/
structure Settled (name : String → NameAnswer) (files : List SourceFile)
    (live : SourceFile → Dictionary String) (renew : SourceFile → SourceFile) : Prop where
  renewed : ∀ file ∈ files, Renewed (live file) file (renew file)
  not_kept : ∀ file ∈ files, ∀ path new, (live file).get? path = some new → ¬ Kept name files path
  canonical : ∀ file ∈ files, ∀ path new, (live file).get? path = some new →
    ∀ repository, Repository.ofImportPath? new = some repository → repository.isCanonical = true

variable {files : List SourceFile} {live : SourceFile → Dictionary String}
  {renew : SourceFile → SourceFile}

/-- A path that was kept is kept again. -/
theorem Settled.kept (h : Settled name files live renew) {path : String}
    (hkept : Kept name files path) : Kept name (files.map renew) path := by
  obtain ⟨file, hfile, spec, hspec, rfl, hverdict⟩ := hkept
  have hrenewed := h.renewed file hfile
  -- A kept path is not substituted, so the import stands in the file as it did.
  have hlive : (live file).get? spec.path = none := by
    rw [Option.eq_none_iff_forall_ne_some]
    intro new hnew
    exact h.not_kept file hfile spec.path new hnew ⟨file, hfile, spec, hspec, rfl, hverdict⟩
  have hpair : (spec.name, spec.path) ∈ Imports.pairsOfImports (renew file).source.imports := by
    rw [hrenewed.imports]
    refine List.mem_map.2 ⟨(spec.name, spec.path), List.mem_map_of_mem hspec, ?_⟩
    rw [Imports.substituted, hlive, Option.getD_none]
  obtain ⟨spec', hspec', heq⟩ := List.mem_map.1 hpair
  rw [Prod.mk.injEq] at heq
  refine ⟨renew file, List.mem_map_of_mem hfile, spec', hspec', heq.2, ?_⟩
  rw [verdict?_isSome_congr hrenewed.compared heq.1 heq.2]
  exact hverdict

/-- **What is eligible behind a substitution was eligible before, and it was not substituted.** -/
theorem Settled.exists_eligible_before (h : Settled name files live renew) {file : SourceFile}
    (hfile : file ∈ files) {spec : Go.Import} (hspec : spec ∈ (renew file).source.imports)
    (hkept : ¬ Kept name (files.map renew) spec.path) {repository : Repository}
    (hrepository : Repository.ofImportPath? spec.path = some repository) :
    (∃ spec₀ ∈ file.source.imports, spec₀.path = spec.path) ∧
      (live file).get? spec.path = none ∧ ¬ Kept name files spec.path := by
  have hrenewed := h.renewed file hfile
  have hpair : (spec.name, spec.path) ∈ Imports.pairsOfImports (renew file).source.imports :=
    List.mem_map_of_mem hspec
  rw [hrenewed.imports] at hpair
  obtain ⟨_, hmem, heq⟩ := List.mem_map.1 hpair
  obtain ⟨spec₀, hspec₀, rfl⟩ := List.mem_map.1 hmem
  rw [Imports.substituted, Prod.mk.injEq] at heq
  obtain ⟨-, hpath⟩ := heq
  have hnot : ¬ Kept name files spec.path := fun hbefore => hkept (h.kept hbefore)
  cases hlive : (live file).get? spec₀.path with
  | none =>
    simp only [hlive, Option.getD_none] at hpath
    rw [hpath] at hlive
    exact ⟨⟨spec₀, hspec₀, hpath⟩, hlive, hnot⟩
  | some new =>
    simp only [hlive, Option.getD_some] at hpath
    subst hpath
    -- The new path is in the registry's namespace, and that is a reason to keep it.
    have hcanonical := h.canonical file hfile spec₀.path spec.path hlive repository hrepository
    refine absurd ⟨renew file, List.mem_map_of_mem hfile, spec, hspec, rfl, ?_⟩ hkept
    rw [verdict?_of_canonical hrepository hcanonical]
    rfl

end Analysis

end PinnedImports
