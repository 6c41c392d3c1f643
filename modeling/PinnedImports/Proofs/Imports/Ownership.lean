import PinnedImports.Package
import PinnedImports.Proofs.Imports.Substitution
import PinnedImports.Proofs.Repository

/-!
# Substitutions by ownership

A substitution finds the pinned repository of an import path by the key at the front of the path.
Where the pins are pins of repositories, this is the one pinned repository that owns the path
(`substitutions_by_ownership`): repositories whose keys only begin alike are kept apart, a package
below a repository keeps its place there, and two packages of one repository stay two.
-/

set_option autoImplicit false

namespace PinnedImports

/-- At most one repository owns a path. -/
theorem Repository.key_unique {path first second : String} {a b : Repository}
    (ha : ofImportPath? first = some a) (hb : ofImportPath? second = some b)
    (howns : owns a.key path = true) (howns' : owns b.key path = true) : a.key = b.key := by
  have hsame := (ofImportPath?_of_owns ha howns).symm.trans (ofImportPath?_of_owns hb howns')
  rw [Option.some.inj hsame]

namespace Imports

/-- The path that a pinned repository gives to one of its import paths. -/
def PinnedTo (pins : Dictionary String) (path result : String) : Prop :=
  ∃ key replacement rest, pins.get? key = some replacement ∧ owns key path = true ∧
    path = key ++ rest ∧ result = replacement ++ rest

/-- Where only repositories are pinned, a path is substituted by the pinned repository that owns
it. -/
theorem substitute?_eq_some_iff_pinnedTo {pins : Dictionary String}
    (hpins : ∀ key, pins.contains key = true →
      ∃ path repository, Repository.ofImportPath? path = some repository ∧ repository.key = key)
    {disabled : StringSet} {path result : String} :
    substitute? pins disabled path = some result ↔
      disabled.contains path = false ∧ PinnedTo pins path result := by
  rw [substitute?_eq_some]
  apply and_congr_right
  intro _
  constructor
  · rintro ⟨repository, replacement, -, hpinned, hreplace⟩
    obtain ⟨howns, rest, hpath, hresult⟩ := replaceKey?_eq_some.1 hreplace
    exact ⟨repository.key, replacement, rest, hpinned, howns, hpath, hresult⟩
  · rintro ⟨key, replacement, rest, hpinned, howns, hpath, hresult⟩
    obtain ⟨other, repository, hother, rfl⟩ :=
      hpins key (Dictionary.contains_iff.2 ⟨replacement, hpinned⟩)
    exact ⟨repository, replacement, Repository.ofImportPath?_of_owns hother howns, hpinned,
      replaceKey?_eq_some.2 ⟨howns, rest, hpath, hresult⟩⟩

/-- **Substitution is by ownership.** Where only repositories are pinned, a path is substituted
exactly if it is imported, is not disabled and lies in a pinned repository, and it keeps what stands
behind the key; only one pinned repository owns it, and different paths of one repository get
different paths. -/
theorem substitutions_by_ownership (pins : Dictionary String) (disabled : StringSet)
    (file : SourceFile)
    (hpins : ∀ key, pins.contains key = true →
      ∃ path repository, Repository.ofImportPath? path = some repository ∧ repository.key = key) :
    (∀ path result, (substitutions pins disabled file.source.imports).get? path = some result ↔
      (∃ spec ∈ file.source.imports, spec.path = path) ∧ disabled.contains path = false ∧
        PinnedTo pins path result) ∧
    (∀ path first second, pins.contains first = true → pins.contains second = true →
      owns first path = true → owns second path = true → first = second) ∧
    ∀ key, pins.contains key = true → ∀ path other result, owns key path = true →
      owns key other = true →
      (substitutions pins disabled file.source.imports).get? path = some result →
      (substitutions pins disabled file.source.imports).get? other = some result →
      path = other := by
  have hunique : ∀ path first second, pins.contains first = true → pins.contains second = true →
      owns first path = true → owns second path = true → first = second := by
    intro path first second hfirst hsecond howns howns'
    obtain ⟨_, a, ha, rfl⟩ := hpins first hfirst
    obtain ⟨_, b, hb, rfl⟩ := hpins second hsecond
    exact Repository.key_unique ha hb howns howns'
  refine ⟨fun path result => ?_, hunique, ?_⟩
  · rw [get?_substitutions, substitute?_eq_some_iff_pinnedTo hpins]
  · intro key hkey path other result howns howns' hpath hother
    rw [get?_substitutions, substitute?_eq_some_iff_pinnedTo hpins] at hpath hother
    obtain ⟨-, -, first, replacement, rest, hfirst, hfirstOwns, rfl, rfl⟩ := hpath
    obtain ⟨-, -, second, replacement', rest', hsecond, hsecondOwns, rfl, hresult⟩ := hother
    -- Both paths are pinned under the one key, so they differ only behind it.
    obtain rfl := hunique _ first key (Dictionary.contains_iff.2 ⟨_, hfirst⟩) hkey hfirstOwns howns
    obtain rfl := hunique _ second first (Dictionary.contains_iff.2 ⟨_, hsecond⟩) hkey hsecondOwns
      howns'
    obtain rfl : replacement = replacement' := Option.some.inj (hfirst.symm.trans hsecond)
    rw [String.append_right_inj] at hresult
    rw [hresult]

/-- A file that imports a package of a repository and two repositories whose keys begin with its
key. -/
def siblings : String :=
  "package p\nimport (\n\t\"github.com/acme/widget/gear\"\n\t\"github.com/acme/widgets\"\n" ++
    "\t\"github.com/acme/widget.v2\"\n)\n"

/-- One pinned repository. -/
def widgetPin : Dictionary String := .ofList [("github.com/acme/widget", "gopkgs.com/widget.v1")]

theorem eq_of_widgetPin {key replacement : String} (h : widgetPin.get? key = some replacement) :
    key = "github.com/acme/widget" ∧ replacement = "gopkgs.com/widget.v1" := by
  have hmem : (key, replacement) ∈ widgetPin.entries := Dictionary.mem_entries.2 h
  simpa [widgetPin, Dictionary.ofList, Dictionary.insert, Dictionary.insertEntry,
    EmptyCollection.emptyCollection] using hmem

set_option maxRecDepth 10000 in
/-- The package below the pinned repository is substituted, and the other repositories are not. -/
theorem siblings_kept_apart :
    ∃ file, SourceFile.parse? "p.go" siblings = some file ∧
      (substitutions widgetPin ∅ file.source.imports).get? "github.com/acme/widget/gear" =
        some "gopkgs.com/widget.v1/gear" ∧
      (substitutions widgetPin ∅ file.source.imports).get? "github.com/acme/widgets" = none ∧
      (substitutions widgetPin ∅ file.source.imports).get? "github.com/acme/widget.v2" = none := by
  have hcheck : (SourceFile.parse? "p.go" siblings).any (fun file =>
      file.source.imports.any (·.path == "github.com/acme/widget/gear")) = true := by
    decide +kernel
  rw [Option.any_eq_true] at hcheck
  obtain ⟨file, hfile, hcheck⟩ := hcheck
  obtain ⟨spec, hspec, hpath⟩ := List.any_eq_true.1 hcheck
  have hkey : Repository.ofImportPath? "github.com/acme/widget" =
      some ⟨.gitHub, "github.com/acme/widget"⟩ := by decide +kernel
  have hpins : ∀ key, widgetPin.contains key = true → ∃ path repository,
      Repository.ofImportPath? path = some repository ∧ repository.key = key := by
    intro key hcontains
    obtain ⟨replacement, hpinned⟩ := Dictionary.contains_iff.1 hcontains
    exact ⟨_, _, hkey, (eq_of_widgetPin hpinned).1.symm⟩
  obtain ⟨hsubstituted, -, -⟩ := substitutions_by_ownership widgetPin ∅ file hpins
  have hkept : ∀ path, owns "github.com/acme/widget" path = false →
      (substitutions widgetPin ∅ file.source.imports).get? path = none := by
    intro path hstranger
    rw [Option.eq_none_iff_forall_ne_some]
    intro result hresult
    obtain ⟨-, -, key, replacement, rest, hpinned, howns, -⟩ := (hsubstituted path result).1 hresult
    rw [(eq_of_widgetPin hpinned).1, hstranger] at howns
    simp at howns
  refine ⟨file, hfile, (hsubstituted _ _).2 ?_, hkept _ (by decide +kernel),
    hkept _ (by decide +kernel)⟩
  exact ⟨⟨spec, hspec, eq_of_beq hpath⟩, rfl, "github.com/acme/widget", "gopkgs.com/widget.v1",
    "/gear", Dictionary.get?_insert_self .., by decide +kernel, rfl, rfl⟩

end Imports

end PinnedImports
