import PinnedImports.Proofs.Analysis
import PinnedImports.Proofs.Imports.Substitution

/-!
# Comparisons that keep an import

`PointsTo` says which types count as types of a package: a qualified name of the package, behind any
number of stars. A file in which such a type is asserted or stands in a case of a type switch keeps
the import of the package, and with it every file of the package keeps the path
(`comparison_keeps_import`). Types that only contain a name of the package do not count
(`mentioned_type_not_attributed`).
-/

set_option autoImplicit false

namespace PinnedImports

namespace Go

namespace Tree

/-- The tree is a type name of the package, behind any number of stars. -/
inductive PointsTo (text : List Char) (package : String) : Tree → Prop
  | qualified {start stop : Nat} {operand name : Tree} :
      operand.textIn text = package →
        PointsTo text package (node .qualifiedType start stop [operand, name])
  | selector {start stop : Nat} {operand name : Tree} :
      operand.isName = true → operand.textIn text = package →
        PointsTo text package (node .selector start stop [operand, name])
  | pointer {commented : Bool} {start stop : Nat} {type : Tree} :
      PointsTo text package type →
        PointsTo text package (node (.pointerType commented) start stop [type])
  | dereference {commented : Bool} {start stop : Nat} {operand : Tree} :
      PointsTo text package operand →
        PointsTo text package (node (.dereference commented) start stop [operand])

/-- No comment stands between a star of a type and what the star belongs to. -/
def hasBareStars : Tree → Bool
  | node (.pointerType commented) _ _ [type] => !commented && hasBareStars type
  | node (.dereference _) _ _ [operand] => hasBareStars operand
  | _ => true

/-- Whether a name of the package occurs anywhere in a type. -/
def mentions (text : List Char) (package : String) (type : Tree) : Bool :=
  type.preorder.any fun part =>
    part.kind = .qualifiedType && part.children.head?.any (·.textIn text == package)

theorem pointsTo_of_shape {text : List Char} {package : String} {tree : Tree}
    (h : (tree.shape text).package? = some package) :
    tree.PointsTo text package ∧ tree.hasBareStars = true := by
  -- The cases of `shape`: two that name a package, two that go on behind a star, and the rest.
  fun_induction shape text tree with
  | case1 start stop operand name =>
    exact ⟨.qualified (Option.some.inj h), rfl⟩
  | case2 start stop operand name hname =>
    exact ⟨.selector hname (Option.some.inj h), rfl⟩
  | case3 => simp [TypeShape.package?] at h
  | case4 commented start stop type ih =>
    cases commented with
    | true => simp [TypeShape.package?] at h
    | false =>
      obtain ⟨hpoints, hbare⟩ := ih h
      exact ⟨.pointer hpoints, by rw [hasBareStars, hbare]; rfl⟩
  | case5 commented start stop operand ih =>
    obtain ⟨hpoints, hbare⟩ := ih h
    exact ⟨.dereference hpoints, by rw [hasBareStars, hbare]⟩
  | case6 => simp [TypeShape.package?] at h

theorem shape_of_pointsTo {text : List Char} {package : String} {tree : Tree}
    (h : tree.PointsTo text package) (hbare : tree.hasBareStars = true) :
    (tree.shape text).package? = some package := by
  induction h with
  | qualified hpackage => rw [shape, TypeShape.package?, hpackage]
  | selector hname hpackage => rw [shape, if_pos hname, TypeShape.package?, hpackage]
  | pointer _ ih =>
    rw [hasBareStars, Bool.and_eq_true, Bool.not_eq_true'] at hbare
    rw [shape, hbare.1, TypeShape.package?]
    exact ih hbare.2
  | dereference _ ih =>
    rw [hasBareStars] at hbare
    rw [shape, TypeShape.package?]
    exact ih hbare

theorem compares_iff {text : List Char} {package : String} {tree : Tree} :
    tree.compares text package = true ↔
      ∃ type ∈ tree.comparedTypes, type.PointsTo text package ∧ type.hasBareStars = true := by
  rw [compares, List.any_eq_true]
  constructor
  · rintro ⟨type, htype, hshape⟩
    exact ⟨type, htype, pointsTo_of_shape (eq_of_beq hshape)⟩
  · rintro ⟨type, htype, hpoints, hbare⟩
    exact ⟨type, htype, beq_iff_eq.2 (shape_of_pointsTo hpoints hbare)⟩

end Tree

/-- A comparison is found exactly where some node compares with a type of the package. -/
theorem typeComparison?_isSome_iff {text : List Char} {code : List Tree} {package : String} :
    (typeComparison? text code package).isSome = true ↔
      ∃ tree ∈ Tree.preorderAll code, ∃ type ∈ tree.comparedTypes,
        type.PointsTo text package ∧ type.hasBareStars = true := by
  rw [typeComparison?, Option.isSome_map, Tree.find?_ofFile, List.find?_isSome]
  simp only [Tree.compares_iff]

end Go

open Analysis

/-- A found comparison is a reason to keep an import that goes by the name of the package. -/
theorem keepReason?_isSome_of_comparison {file : SourceFile} {name : String}
    (h : (file.typeComparison? name).isSome = true) : (keepReason? file name).isSome = true := by
  unfold keepReason?
  split
  · rfl
  · rw [Option.isSome_map]
    exact h

/-- **A compared type keeps its import in the whole package.** Where a type that is asserted or stands
in a case of a type switch points to a name of the package, with no comment behind a star, the
comparison is found; then an import that goes by this name is disabled, and its path is not
substituted in any file, whatever is pinned. Nothing is found without such a type. -/
theorem comparison_keeps_import (file : SourceFile) (name : String) :
    ((∃ tree ∈ Go.Tree.preorderAll file.source.code, ∃ type ∈ tree.comparedTypes,
        type.PointsTo file.text.toList name ∧ type.hasBareStars = true) →
      (file.typeComparison? name).isSome = true ∧
      ∀ {σ : Type} (lookup : String → σ → NameAnswer × σ) (files : List SourceFile) (world : σ)
        (spec : Go.Import), file ∈ files → spec ∈ file.source.imports →
        (Repository.ofImportPath? spec.path).isSome = true →
        effectiveName? (names lookup files world) spec = some (.ok name) →
        (ofFiles lookup files world).1.disabled.contains spec.path = true ∧
        ∀ (pins : Dictionary String), ∀ other ∈ files,
          (Imports.substitutions pins (ofFiles lookup files world).1.disabled
            other.source.imports).get? spec.path = none) ∧
    ((file.typeComparison? name).isSome = true →
      ∃ tree ∈ Go.Tree.preorderAll file.source.code, ∃ type ∈ tree.comparedTypes,
        type.PointsTo file.text.toList name) := by
  constructor
  · intro hcompared
    have hfound : (file.typeComparison? name).isSome = true :=
      Go.typeComparison?_isSome_iff.2 hcompared
    refine ⟨hfound, fun lookup files world spec hfile hspec hrepository hname => ?_⟩
    obtain ⟨repository, hrepository⟩ := Option.isSome_iff_exists.1 hrepository
    have hreason : (reason? (names lookup files world) file spec).isSome = true := by
      rw [reason?, hrepository, hname]
      simp only
      split
      · rfl
      · exact keepReason?_isSome_of_comparison hfound
    have hdisabled := mem_disabled_ofFiles.2 ⟨file, hfile, spec, hspec, rfl, hreason⟩
    exact ⟨hdisabled, fun pins other _ =>
      Imports.get?_substitutions_of_disabled hdisabled pins other.source.imports⟩
  · intro hfound
    obtain ⟨tree, htree, type, htype, hpoints, -⟩ := Go.typeComparison?_isSome_iff.1 hfound
    exact ⟨tree, htree, type, htype, hpoints⟩

/-- A file that asserts a pointer to a type of a package that it imports under a name of its own. -/
def pointerAssertion : String :=
  "package p\nimport w \"github.com/a/b\"\nfunc f(v T) \x7b\n\t_ = v.(*w.U)\n\x7d\n"

set_option maxRecDepth 10000 in
/-- The import of `pointerAssertion` keeps its path. -/
theorem pointer_assertion_keeps_import :
    ∃ file spec, SourceFile.parse? "p.go" pointerAssertion = some file ∧
      spec ∈ file.source.imports ∧ spec.path = "github.com/a/b" ∧
      (file.typeComparison? "w").isSome = true ∧
      ∀ pins : Dictionary String,
        (Imports.substitutions pins
          (ofFiles (fun _ w => (.error "", w)) [file] ()).1.disabled
          file.source.imports).get? spec.path = none := by
  have hcheck : (SourceFile.parse? "p.go" pointerAssertion).any (fun file =>
      (file.typeComparison? "w").isSome && file.source.imports.any fun spec =>
        spec.path == "github.com/a/b" && spec.name == some "w") = true := by
    decide +kernel
  rw [Option.any_eq_true] at hcheck
  obtain ⟨file, hfile, hcheck⟩ := hcheck
  rw [Bool.and_eq_true, List.any_eq_true] at hcheck
  obtain ⟨hfound, spec, hspec, hpath⟩ := hcheck
  rw [Bool.and_eq_true, beq_iff_eq, beq_iff_eq] at hpath
  have hcompared := Go.typeComparison?_isSome_iff.1 hfound
  have hrepository : (Repository.ofImportPath? spec.path).isSome = true := by
    rw [hpath.1]
    decide +kernel
  have hkept := ((comparison_keeps_import file "w").1 hcompared).2 (fun _ w => (.error "", w))
    [file] () spec (List.mem_singleton.2 rfl) hspec hrepository
    (by rw [effectiveName?, hpath.2])
  exact ⟨file, spec, hfile, hspec, hpath.1, hfound, fun pins =>
    hkept.2 pins file (List.mem_singleton.2 rfl)⟩

/-- A file that asserts a slice of a type of a package. -/
def sliceAssertion : String := "package p\nfunc f(v T) \x7b\n\t_ = v.([]w.T)\n\x7d\n"

set_option maxRecDepth 10000 in
/-- A name of a package that is only a part of a compared type is not found. -/
theorem mentioned_type_not_attributed :
    ¬ ∀ (text : List Char) (source : Go.Source) (package : String),
      Go.Source.parse? text = some source →
      (∃ tree ∈ Go.Tree.preorderAll source.code, ∃ type ∈ tree.comparedTypes,
        type.mentions text package = true) →
      Go.typeComparison? text source.code package ≠ none := by
  intro h
  have hcheck : (Go.Source.parse? sliceAssertion.toList).any (fun source =>
      (Go.Tree.preorderAll source.code).any (fun tree =>
        tree.comparedTypes.any (·.mentions sliceAssertion.toList "w")) &&
      (Go.typeComparison? sliceAssertion.toList source.code "w").isNone) = true := by
    decide +kernel
  rw [Option.any_eq_true] at hcheck
  obtain ⟨source, hparse, hcheck⟩ := hcheck
  rw [Bool.and_eq_true, List.any_eq_true, Option.isNone_iff_eq_none] at hcheck
  obtain ⟨⟨tree, htree, htypes⟩, hnone⟩ := hcheck
  obtain ⟨type, htype, hmentions⟩ := List.any_eq_true.1 htypes
  exact h _ source "w" hparse ⟨tree, htree, type, htype, hmentions⟩ hnone

end PinnedImports
