import PinnedImports.Proofs.Imports.Ownership
import PinnedImports.Proofs.Stability

/-!
# What is eligible

A path is filed under a key (`Filed`) where the analysis holds it as an eligible path of this
repository. Exactly the imported paths of a repository that are not disabled are filed, each under
its own key (`filed_ofFiles`), so no path of the registry's namespace is (`not_canonical_of_filed`).
With package names that are a fixed function, neither the order of the files nor that of the imports
matters (`ofFiles_reordered`).
-/

set_option autoImplicit false

namespace PinnedImports.Analysis

/-- The path is held as an eligible path of the repository with the key. -/
def Filed (eligible : Dictionary StringSet) (key path : String) : Prop :=
  ∃ paths, eligible.get? key = some paths ∧ paths.contains path = true

theorem contains_insert {paths : StringSet} {added path : String} :
    (paths.insert added ()).contains path = true ↔ path = added ∨ paths.contains path = true := by
  rw [Dictionary.contains, Dictionary.get?_insert]
  split
  · rename_i h
    simp [h]
  · rename_i h
    simp [h, Dictionary.contains]

/-- A path is filed under its key unless it is disabled, and what was filed stays filed. -/
theorem filed_addEligible {disabled : StringSet} {eligible : Dictionary StringSet}
    {added key path : String} :
    Filed (addEligible disabled eligible added) key path ↔
      Filed eligible key path ∨ path = added ∧ disabled.contains added = false ∧
        ∃ repository, Repository.ofImportPath? added = some repository ∧ repository.key = key := by
  unfold addEligible
  split
  · rename_i hdisabled
    simp [hdisabled]
  rename_i hdisabled
  rw [Bool.not_eq_true] at hdisabled
  cases hrepository : Repository.ofImportPath? added with
  | none => simp
  | some repository =>
    simp only [Filed, Dictionary.get?_insert, hdisabled, true_and, Option.some.injEq,
      exists_eq_left']
    by_cases hkey : key = repository.key
    · -- The set of the key is the old one, or a new one, with the path added.
      subst hkey
      rw [if_pos rfl]
      simp only [Option.some.injEq, exists_eq_left', contains_insert, and_true]
      rw [or_comm]
      apply or_congr_left
      cases eligible.get? repository.key with
      | none => simp [Dictionary.contains]
      | some paths => simp
    · rw [if_neg hkey]
      simp [Ne.symm hkey]

theorem filed_foldl_addEligible {disabled : StringSet} {paths : List String}
    {eligible : Dictionary StringSet} {key path : String} :
    Filed (paths.foldl (addEligible disabled) eligible) key path ↔
      Filed eligible key path ∨ path ∈ paths ∧ disabled.contains path = false ∧
        ∃ repository, Repository.ofImportPath? path = some repository ∧ repository.key = key := by
  induction paths generalizing eligible with
  | nil => simp
  | cons first rest ih =>
    rw [List.foldl_cons, ih, filed_addEligible, or_assoc]
    apply or_congr_right
    rw [List.mem_cons, or_and_right]
    apply or_congr_left
    apply and_congr_right
    rintro rfl
    rfl

variable {σ : Type} {lookup : String → σ → NameAnswer × σ} {files : List SourceFile} {world : σ}

/-- A path that some file imports. -/
def Imported (files : List SourceFile) (path : String) : Prop :=
  ∃ file ∈ files, ∃ spec ∈ file.source.imports, spec.path = path

theorem mem_paths_occurrences {path : String} :
    path ∈ (occurrences files).map (fun entry => entry.2.path) ↔ Imported files path := by
  simp only [List.mem_map, Prod.exists, mem_occurrences, Imported]
  constructor
  · rintro ⟨file, spec, ⟨hfile, hspec⟩, hpath⟩
    exact ⟨file, hfile, spec, hspec, hpath⟩
  · rintro ⟨file, hfile, spec, hspec, hpath⟩
    exact ⟨file, spec, ⟨hfile, hspec⟩, hpath⟩

/-- **The imported paths of repositories that are not disabled are filed, under their keys.** -/
theorem filed_ofFiles {key path : String} :
    Filed (ofFiles lookup files world).1.eligible key path ↔
      Imported files path ∧ (ofFiles lookup files world).1.disabled.contains path = false ∧
        ∃ repository, Repository.ofImportPath? path = some repository ∧ repository.key = key := by
  have heligible : (ofFiles lookup files world).1.eligible =
      ((occurrences files).map fun entry => entry.2.path).foldl
        (addEligible (ofFiles lookup files world).1.disabled) ∅ := rfl
  rw [heligible, filed_foldl_addEligible, mem_paths_occurrences]
  simp [Filed]

/-- A path of the registry's namespace is disabled wherever it is imported. -/
theorem disabled_of_canonical {path : String} {repository : Repository}
    (himported : Imported files path)
    (hrepository : Repository.ofImportPath? path = some repository)
    (hcanonical : repository.isCanonical = true) :
    (ofFiles lookup files world).1.disabled.contains path = true := by
  obtain ⟨file, hfile, spec, hspec, rfl⟩ := himported
  refine mem_disabled_ofFiles.2 ⟨file, hfile, spec, hspec, rfl, ?_⟩
  rw [reason?, hrepository]
  simp only [hcanonical, if_true, Option.isSome_some]

/-- **No path of the registry's namespace is eligible**, and neither is its key. -/
theorem not_canonical_of_filed {key path : String}
    (h : Filed (ofFiles lookup files world).1.eligible key path) :
    ¬ registryNamespace.toList <+: key.toList ∧ ¬ registryNamespace.toList <+: path.toList := by
  obtain ⟨himported, hdisabled, repository, hrepository, rfl⟩ := filed_ofFiles.1 h
  have hcanonical : ¬ repository.isCanonical = true := by
    intro hcanonical
    rw [disabled_of_canonical himported hrepository hcanonical] at hdisabled
    simp at hdisabled
  refine ⟨fun hkey => hcanonical ((Repository.isCanonical_iff hrepository).2 hkey), fun hpath => ?_⟩
  exact hcanonical (Repository.isCanonical_of_namespace hpath hrepository)

/-- A key has a path filed under it. -/
theorem exists_filed_of_mem_keys {key : String} (h : key ∈ (ofFiles lookup files world).1.keys) :
    ∃ path, Filed (ofFiles lookup files world).1.eligible key path := by
  obtain ⟨file, hfile, spec, hspec, hdisabled, hrepository⟩ := mem_keys_ofFiles.1 h
  exact ⟨spec.path, filed_ofFiles.2 ⟨⟨file, hfile, spec, hspec, rfl⟩, hdisabled, hrepository⟩⟩

/-- The paths that are kept somewhere are the disabled ones. -/
theorem mem_kept_iff_disabled {path : String} :
    (∃ kept ∈ (ofFiles lookup files world).1.kept, kept.path = path) ↔
      (ofFiles lookup files world).1.disabled.contains path = true := by
  have hdisabled : (ofFiles lookup files world).1.disabled =
      Dictionary.ofList ((ofFiles lookup files world).1.kept.map fun kept => (kept.path, ())) := rfl
  rw [hdisabled, Dictionary.contains_ofList]
  simp

/-! ## The order of files and imports -/

/-- The same file with its imports in another order. -/
structure Reorders (file file' : SourceFile) : Prop where
  text : file'.text = file.text
  code : file'.source.code = file.source.code
  imports : file'.source.imports.Perm file.source.imports

/-- The same files in another order, each with its imports in another order. -/
def Reordered (files files' : List SourceFile) : Prop :=
  ∃ order, files.Perm order ∧ List.Forall₂ Reorders order files'

theorem Reordered.exists_left {files files' : List SourceFile} (h : Reordered files files')
    {file : SourceFile} (hfile : file ∈ files) : ∃ file' ∈ files', Reorders file file' := by
  obtain ⟨order, hperm, horder⟩ := h
  exact (exists_of_forall₂ horder).1 file (hperm.mem_iff.1 hfile)

theorem Reordered.exists_right {files files' : List SourceFile} (h : Reordered files files')
    {file' : SourceFile} (hfile : file' ∈ files') : ∃ file ∈ files, Reorders file file' := by
  obtain ⟨order, hperm, horder⟩ := h
  obtain ⟨file, hmem, hreorders⟩ := (exists_of_forall₂ horder).2 file' hfile
  exact ⟨file, hperm.mem_iff.2 hmem, hreorders⟩

/-- An import is judged alike in both orders. -/
theorem Reorders.verdict? {name : String → NameAnswer} {file file' : SourceFile}
    (h : Reorders file file') (spec : Go.Import) :
    (verdict? name file' spec).isSome = (verdict? name file spec).isSome := by
  refine verdict?_isSome_congr (fun used => ?_) rfl rfl
  rw [SourceFile.typeComparison?, SourceFile.typeComparison?, h.text, h.code]

/-- The imports with a property of their file are those of the other order. -/
theorem Reordered.exists_import {files files' : List SourceFile} (h : Reordered files files')
    {p : SourceFile → Go.Import → Prop}
    (hp : ∀ file file' spec, Reorders file file' → (p file spec ↔ p file' spec)) :
    (∃ file ∈ files, ∃ spec ∈ file.source.imports, p file spec) ↔
      ∃ file ∈ files', ∃ spec ∈ file.source.imports, p file spec := by
  constructor
  · rintro ⟨file, hfile, spec, hspec, hjudged⟩
    obtain ⟨file', hfile', hreorders⟩ := h.exists_left hfile
    exact ⟨file', hfile', spec, hreorders.imports.mem_iff.2 hspec,
      (hp file file' spec hreorders).1 hjudged⟩
  · rintro ⟨file', hfile', spec, hspec, hjudged⟩
    obtain ⟨file, hfile, hreorders⟩ := h.exists_right hfile'
    exact ⟨file, hfile, spec, hreorders.imports.mem_iff.1 hspec,
      (hp file file' spec hreorders).2 hjudged⟩

theorem Reordered.kept {name : String → NameAnswer} {files files' : List SourceFile}
    (h : Reordered files files') {path : String} : Kept name files path ↔ Kept name files' path :=
  h.exists_import fun file file' spec hreorders => by rw [hreorders.verdict?]

theorem Reordered.imported {files files' : List SourceFile} (h : Reordered files files')
    {path : String} : Imported files path ↔ Imported files' path :=
  h.exists_import (p := fun _ spec => spec.path = path) fun _ _ _ _ => Iff.rfl

/-- A set is known by its members. -/
theorem stringSet_ext {a b : StringSet} (h : ∀ path, a.contains path = true ↔ b.contains path = true) :
    a = b := by
  refine Dictionary.ext_get? fun path => ?_
  have hsame := h path
  simp only [Dictionary.contains] at hsame
  cases ha : Dictionary.get? a path <;> cases hb : Dictionary.get? b path <;> simp_all

/-- Dictionaries of eligible paths are known by their keys and what is filed under them. -/
theorem eligible_ext {a b : Dictionary StringSet} (hkeys : ∀ key, key ∈ a.keys ↔ key ∈ b.keys)
    (hfiled : ∀ key path, Filed a key path ↔ Filed b key path) : a = b := by
  refine Dictionary.ext_get? fun key => ?_
  have hkey := hkeys key
  rw [Dictionary.mem_keys, Dictionary.mem_keys] at hkey
  cases ha : a.get? key with
  | none =>
    cases hb : b.get? key with
    | none => rfl
    | some paths =>
      obtain ⟨value, hvalue⟩ := hkey.2 ⟨paths, hb⟩
      rw [ha] at hvalue
      simp at hvalue
  | some paths =>
    obtain ⟨paths', hb⟩ := hkey.1 ⟨paths, ha⟩
    rw [hb, Option.some.injEq]
    refine stringSet_ext fun path => ?_
    have hpath := hfiled key path
    simpa [Filed, ha, hb] using hpath

/-- **The order of the files and of their imports does not matter** to what is disabled and what is
eligible. -/
theorem ofFiles_reordered {name : String → NameAnswer}
    (hlookup : ∀ path world, (lookup path world).1 = name path) {files' : List SourceFile}
    (h : Reordered files files') (world' : σ) :
    (ofFiles lookup files' world').1.disabled = (ofFiles lookup files world).1.disabled ∧
      (ofFiles lookup files' world').1.eligible = (ofFiles lookup files world).1.eligible := by
  have hdisabled : (ofFiles lookup files' world').1.disabled =
      (ofFiles lookup files world).1.disabled := by
    refine stringSet_ext fun path => ?_
    rw [mem_disabled_iff_kept hlookup, mem_disabled_iff_kept hlookup, h.kept]
  refine ⟨hdisabled, eligible_ext (fun key => ?_) fun key path => ?_⟩
  · have hkeys : ∀ a : Analysis, a.eligible.keys = a.keys := fun _ => rfl
    rw [hkeys, hkeys, mem_keys_ofFiles, mem_keys_ofFiles, hdisabled]
    exact (h.exists_import fun _ _ _ _ => Iff.rfl).symm
  · rw [filed_ofFiles, filed_ofFiles, hdisabled, h.imported]

end PinnedImports.Analysis
