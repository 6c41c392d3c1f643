import Mathlib.Data.List.Basic
import PinnedImports.Imports.Substitution
import PinnedImports.Proofs.Dictionary

/-!
# Substitutions of a file

The substitution of an import path does not depend on the file, so a file's substitutions are those
of its import paths.
-/

set_option autoImplicit false

namespace PinnedImports

/-- A path with another key in place of its own: the rest behind the key stays. -/
theorem replaceKey?_eq_some {key path replacement result : String} :
    replaceKey? key path replacement = some result ↔
      owns key path = true ∧
        ∃ rest, path = key ++ rest ∧ result = replacement ++ rest := by
  rw [replaceKey?, owns, Option.map_eq_some_iff]
  constructor
  · rintro ⟨rest, hrest, rfl⟩
    refine ⟨Option.isSome_of_eq_some hrest, String.ofList rest, ?_, rfl⟩
    unfold packageWithin? at hrest
    have hafter : Text.after? key.toList path.toList = some rest := by
      split at hrest
      · rename_i h
        rw [h, ← hrest]
      · rename_i h
        rw [h, ← hrest]
      · simp at hrest
    rw [Text.after?, List.isPrefixOf?_eq_some_iff_append_eq] at hafter
    rw [← String.toList_inj, String.toList_append, String.toList_ofList]
    exact hafter.symm
  · rintro ⟨howns, rest, rfl, rfl⟩
    obtain ⟨found, hfound⟩ := Option.isSome_iff_exists.1 howns
    refine ⟨found, hfound, ?_⟩
    have hafter : Text.after? key.toList (key ++ rest).toList = some rest.toList := by
      rw [Text.after?, List.isPrefixOf?_eq_some_iff_append_eq, String.toList_append]
    unfold packageWithin? at hfound
    rw [hafter] at hfound
    have hrest : found = rest.toList := by
      split at hfound
      · rename_i h
        rw [Option.some.injEq] at h hfound
        rw [h, ← hfound]
      · rename_i h
        rw [Option.some.injEq] at h hfound
        rw [h, ← hfound]
      · simp at hfound
    rw [hrest, String.ofList_toList]

namespace Imports

/-- A path is substituted if it is not disabled and its repository is pinned and owns it. -/
theorem substitute?_eq_some {pins : Dictionary String} {disabled : StringSet}
    {path result : String} :
    substitute? pins disabled path = some result ↔
      disabled.contains path = false ∧
        ∃ repository replacement, Repository.ofImportPath? path = some repository ∧
          pins.get? repository.key = some replacement ∧
          replaceKey? repository.key path replacement = some result := by
  unfold substitute?
  split
  · rename_i h
    simp [h]
  · rename_i h
    rw [Bool.not_eq_true] at h
    simp [h, Option.bind_eq_some_iff]

/-- **The substitutions of a file are those of its import paths.** -/
theorem get?_substitutions {pins : Dictionary String} {disabled : StringSet}
    {imports : List Go.Import} {path result : String} :
    (substitutions pins disabled imports).get? path = some result ↔
      (∃ spec ∈ imports, spec.path = path) ∧ substitute? pins disabled path = some result := by
  have hvalue : ∀ entry ∈ imports.filterMap fun spec =>
      (substitute? pins disabled spec.path).map (spec.path, ·),
      entry.2 = (substitute? pins disabled entry.1).getD "" := by
    intro entry hentry
    obtain ⟨spec, -, hspec⟩ := List.mem_filterMap.1 hentry
    obtain ⟨value, hvalue, rfl⟩ := Option.map_eq_some_iff.1 hspec
    rw [hvalue]
    rfl
  rw [substitutions, Dictionary.get?_ofList (f := fun key =>
    (substitute? pins disabled key).getD "") hvalue, List.mem_filterMap]
  constructor
  · rintro ⟨spec, hmem, hspec⟩
    obtain ⟨value, hvalue, heq⟩ := Option.map_eq_some_iff.1 hspec
    rw [Prod.mk.injEq] at heq
    obtain ⟨rfl, rfl⟩ := heq
    exact ⟨⟨spec, hmem, rfl⟩, hvalue⟩
  · rintro ⟨⟨spec, hmem, rfl⟩, hvalue⟩
    exact ⟨spec, hmem, by rw [hvalue]; rfl⟩

/-- A disabled path is not substituted in any file. -/
theorem get?_substitutions_of_disabled {disabled : StringSet} {path : String}
    (h : disabled.contains path = true) (pins : Dictionary String) (imports : List Go.Import) :
    (substitutions pins disabled imports).get? path = none := by
  rw [Option.eq_none_iff_forall_ne_some]
  intro result hresult
  obtain ⟨hdisabled, -⟩ := substitute?_eq_some.1 (get?_substitutions.1 hresult).2
  rw [h] at hdisabled
  simp at hdisabled

end Imports

end PinnedImports
