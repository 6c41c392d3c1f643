import PinnedImports.Proofs.Go.Agreement.Files
import PinnedImports.Proofs.TypeIdentity

/-!
# Comments in compared types

The trees that are read off a text with a comment and without it are similar, so the same types are
compared in both, and they point to the same packages (`Similar.pointsTo_iff`). Only a comment
behind a star makes a difference, because such a type is not attributed to its package
(`comments_keep_comparisons`).
-/

set_option autoImplicit false

namespace PinnedImports.Go

namespace Tree

/-! ## The word of a type -/

/-- Whether a node is a star with what it belongs to. -/
def isStar : Kind → Bool
  | .pointerType _ | .dereference _ => true
  | _ => false

/-- The word that names the package of a type, behind any number of stars. -/
def packageWord? : Tree → Option Tree
  | node kind _ _ [part] => if isStar kind then packageWord? part else none
  | node kind _ _ [operand, _] =>
    if kind = .qualifiedType ∨ (kind = .selector ∧ operand.isName = true) then some operand
    else none
  | _ => none

theorem pointsTo_iff {text : List Char} {package : String} {tree : Tree} :
    tree.PointsTo text package ↔ ∃ word ∈ tree.packageWord?, word.textIn text = package := by
  constructor
  · intro h
    induction h with
    | qualified hpackage => exact ⟨_, rfl, hpackage⟩
    | @selector start stop operand name hname hpackage =>
      exact ⟨operand, by rw [packageWord?, if_pos (.inr ⟨rfl, hname⟩)]; rfl, hpackage⟩
    | pointer _ ih => exact ih
    | dereference _ ih => exact ih
  · rintro ⟨word, hword, hpackage⟩
    fun_induction packageWord? tree with
    | case1 kind start stop part hstar ih =>
      cases kind <;> first
        | exact .pointer (ih hword)
        | exact .dereference (ih hword)
        | simp [isStar] at hstar
    | case2 => simp at hword
    | case3 kind start stop operand name hkind =>
      obtain rfl : operand = word := by simpa using hword
      rcases hkind with rfl | ⟨rfl, hname⟩
      · exact .qualified hpackage
      · exact .selector hname hpackage
    | case4 => simp at hword
    | case5 => simp at hword

theorem packageWord?_turned (size : Nat) : ∀ tree : Tree,
    (tree.turned size).packageWord? = tree.packageWord?.map (turned size)
  | node kind start stop [] => rfl
  | node kind start stop [part] => by
    rw [turned_node, List.map_singleton, packageWord?, packageWord?, packageWord?_turned size part]
    split <;> rfl
  | node kind start stop [operand, name] => by
    rw [turned_node, List.map_cons, List.map_singleton, packageWord?, packageWord?, isName_turned]
    split <;> rfl
  | node kind start stop (a :: b :: c :: rest) => rfl

theorem hasBareStars_singleton (kind : Kind) (start stop : Nat) (part : Tree) :
    (node kind start stop [part]).hasBareStars =
      (!isStar kind || ((kind != .pointerType true) && part.hasBareStars)) := by
  cases kind <;> first
    | rfl
    | (rename_i commented; cases commented <;> simp [hasBareStars, isStar])

theorem hasBareStars_of_length {kind : Kind} {start stop : Nat} {children : List Tree}
    (h : children.length ≠ 1) : (node kind start stop children).hasBareStars = true := by
  rcases children with _ | ⟨a, _ | ⟨b, rest⟩⟩
  · cases kind <;> rfl
  · exact absurd rfl h
  · cases kind <;> rfl

theorem hasBareStars_turned (size : Nat) : ∀ tree : Tree,
    (tree.turned size).hasBareStars = tree.hasBareStars
  | node kind start stop [] => by
    rw [turned_node, hasBareStars_of_length (by simp), hasBareStars_of_length (by simp)]
  | node kind start stop [part] => by
    rw [turned_node, List.map_singleton, hasBareStars_singleton, hasBareStars_singleton,
      hasBareStars_turned size part]
  | node kind start stop (a :: b :: rest) => by
    rw [turned_node, hasBareStars_of_length (by simp), hasBareStars_of_length (by simp)]

end Tree

namespace Seam

open PinnedImports.Go.Tree

variable {s : Seam}

/-! ## Types of similar trees -/

/-- Words of similar trees have the same characters. -/
theorem Similar.textIn {tree tree' : Tree} (h : s.Similar tree tree')
    (hname : tree.isName = true) :
    (tree'.turned (Text.byteLength s.commented)).textIn s.commented =
      (tree.turned (Text.byteLength s.plain)).textIn s.plain := by
  obtain ⟨kind, start, stop, children⟩ := tree
  obtain ⟨kind', start', stop', children'⟩ := tree'
  rw [Similar] at h
  rw [Tree.isName, Bool.or_eq_true, decide_eq_true_eq, decide_eq_true_eq] at hname
  exact h.2.1 hname

/-- The root and the parts of similar trees. -/
theorem Similar.parts {kind kind' : Kind} {start stop start' stop' : Nat}
    {children children' : List Tree}
    (h : s.Similar (.node kind start stop children) (.node kind' start' stop' children')) :
    s.SameKind kind kind' ∧ HoldsTypes kind children ∧
      List.Forall₂ s.Similar children children' := by
  rw [Similar] at h
  exact ⟨h.1, h.2.2.1, similarAll_iff.1 h.2.2.2⟩

theorem SameKind.isStar {kind kind' : Kind} (h : s.SameKind kind kind') :
    Tree.isStar kind' = Tree.isStar kind := by
  cases h <;> rfl

theorem Similar.packageWord? : ∀ {tree tree' : Tree}, s.Similar tree tree' →
    Option.Rel (fun word word' => s.Similar word word' ∧ word.isName = true) tree.packageWord?
      tree'.packageWord?
  | .node kind start stop [], .node kind' start' stop' children', h => by
    obtain ⟨-, -, hparts⟩ := h.parts
    cases hparts
    exact .none
  | .node kind start stop [part], .node kind' start' stop' children', h => by
    obtain ⟨hkind, -, hparts⟩ := h.parts
    cases hparts with
    | cons hpart hnil =>
      cases hnil
      rw [Tree.packageWord?, Tree.packageWord?, hkind.isStar]
      split
      · exact hpart.packageWord?
      · exact .none
  | .node kind start stop [operand, name], .node kind' start' stop' children', h => by
    obtain ⟨hkind, htypes, hparts⟩ := h.parts
    cases hparts with
    | @cons _ operand' _ _ hoperand hrest =>
      cases hrest with
      | @cons _ name' _ _ _ hnil =>
        cases hnil
        have hqualified : kind' = .qualifiedType ↔ kind = .qualifiedType :=
          hkind.eq_iff (by simp) (by simp)
        have hselector : kind' = .selector ↔ kind = .selector := hkind.eq_iff (by simp) (by simp)
        rw [Tree.packageWord?, Tree.packageWord?]
        simp only [hqualified, hselector, hoperand.isName]
        split
        · rename_i hcondition
          refine .some ⟨hoperand, ?_⟩
          rcases hcondition with rfl | ⟨-, hname⟩
          · obtain ⟨_, hhead, hname⟩ := htypes
            obtain rfl := Option.some.inj hhead
            rw [Tree.isName, hname]
            rfl
          · exact hname
        · exact .none
  | .node kind start stop (a :: b :: c :: rest), .node kind' start' stop' children', h => by
    obtain ⟨-, -, hparts⟩ := h.parts
    cases hparts with
    | cons _ hparts =>
      cases hparts with
      | cons _ hparts =>
        cases hparts
        exact .none

/-- A type points to the same package with the comment. -/
theorem Similar.pointsTo_iff {tree tree' : Tree} (h : s.Similar tree tree') (package : String) :
    (tree'.turned (Text.byteLength s.commented)).PointsTo s.commented package ↔
      (tree.turned (Text.byteLength s.plain)).PointsTo s.plain package := by
  rw [Tree.pointsTo_iff, Tree.pointsTo_iff, packageWord?_turned, packageWord?_turned]
  have hword := h.packageWord?
  generalize tree.packageWord? = found at hword ⊢
  generalize tree'.packageWord? = found' at hword ⊢
  cases hword with
  | none => simp
  | some hword => simp [hword.1.textIn hword.2]

/-- With the comment a type has bare stars only if it has them without, and it still has them unless
the comment stands behind a star. -/
theorem Similar.hasBareStars : ∀ {tree tree' : Tree}, s.Similar tree tree' →
    (tree'.hasBareStars = true → tree.hasBareStars = true) ∧
      (tree.hasBareStars = true → tree'.hasBareStars = true ∨ s.BehindStar)
  | .node kind start stop [], .node kind' start' stop' children', h => by
    obtain ⟨-, -, hparts⟩ := h.parts
    cases hparts
    rw [hasBareStars_of_length (by simp), hasBareStars_of_length (by simp)]
    simp
  | .node kind start stop [part], .node kind' start' stop' children', h => by
    obtain ⟨hkind, -, hparts⟩ := h.parts
    cases hparts with
    | cons hpart hnil =>
      cases hnil
      obtain ⟨hplain, hcommented⟩ := hpart.hasBareStars
      rw [hasBareStars_singleton, hasBareStars_singleton, hkind.isStar]
      cases hkind with
      | same =>
        cases Tree.isStar kind <;> cases kind != .pointerType true <;> simp_all
      | @pointer commented commented' hflag =>
        obtain ⟨hkept, hadded⟩ := hflag
        cases commented <;> cases commented' <;> simp_all [Tree.isStar]
      | dereference hflag => simpa [Tree.isStar] using ⟨hplain, hcommented⟩
  | .node kind start stop (a :: b :: rest), .node kind' start' stop' children', h => by
    obtain ⟨-, -, hparts⟩ := h.parts
    have hlength := hparts.length_eq
    rw [hasBareStars_of_length (by rw [← hlength]; simp), hasBareStars_of_length (by simp)]
    simp

/-! ## Comparisons of similar trees -/

mutual

theorem Similar.preorder : ∀ {tree tree' : Tree}, s.Similar tree tree' →
    List.Forall₂ s.Similar tree.preorder tree'.preorder
  | .node _ _ _ _, .node _ _ _ _, h => by
    rw [Tree.preorder, Tree.preorder]
    exact .cons h (SimilarAll.preorderAll (similarAll_iff.2 h.children))

theorem SimilarAll.preorderAll : ∀ {trees trees' : List Tree}, s.SimilarAll trees trees' →
    List.Forall₂ s.Similar (Tree.preorderAll trees) (Tree.preorderAll trees')
  | [], [], _ => .nil
  | tree :: rest, tree' :: rest', h => by
    rw [SimilarAll] at h
    rw [Tree.preorderAll, Tree.preorderAll]
    exact List.rel_append h.1.preorder (SimilarAll.preorderAll h.2)
  | [], _ :: _, h => by simp [SimilarAll] at h
  | _ :: _, [], h => by simp [SimilarAll] at h

end

theorem Similar.comparedTypes {tree tree' : Tree} (h : s.Similar tree tree') :
    List.Forall₂ s.Similar tree.comparedTypes tree'.comparedTypes := by
  obtain ⟨kind, start, stop, children⟩ := tree
  obtain ⟨kind', start', stop', children'⟩ := tree'
  obtain ⟨hkind, -, hparts⟩ := h.parts
  cases hkind with
  | same =>
    cases kind
    case assertion =>
      cases hparts with
      | nil => exact .nil
      | cons _ hrest =>
        cases hrest with
        | nil => exact .nil
        | cons htype hmore =>
          cases hmore with
          | nil => exact .cons htype .nil
          | cons => exact .nil
    case typeCase =>
      cases hparts with
      | nil => exact .nil
      | cons htypes _ => exact htypes.children
    all_goals exact .nil
  | pointer => exact .nil
  | dereference => exact .nil

theorem codeOf_eq_map (size : Nat) (items : List Item) :
    Item.codeOf size items = (items.filterMap Item.tree?).map (Tree.turned size) := by
  rw [Item.codeOf, List.map_filterMap]
  congr 1
  funext item
  cases item <;> rfl

theorem SimilarItem.trees {items items' : List Item} (h : List.Forall₂ s.SimilarItem items items') :
    List.Forall₂ s.Similar (items.filterMap Item.tree?) (items'.filterMap Item.tree?) := by
  induction h with
  | nil => exact .nil
  | @cons item item' _ _ hitem _ ih =>
    rw [List.filterMap_cons, List.filterMap_cons]
    rw [SimilarItem] at hitem
    generalize item.tree? = tree at hitem
    generalize item'.tree? = tree' at hitem
    cases hitem with
    | none => exact ih
    | some htree => exact .cons htree ih

/-- The compared types of a text are those of its trees. -/
theorem isSome_typeComparison?_turned {text : List Char} {trees : List Tree} {package : String} :
    (typeComparison? text (trees.map (Tree.turned (Text.byteLength text))) package).isSome = true ↔
      ∃ type ∈ (Tree.preorderAll trees).flatMap Tree.comparedTypes,
        (type.turned (Text.byteLength text)).PointsTo text package ∧ type.hasBareStars = true := by
  rw [typeComparison?_isSome_iff, ← Tree.turnedAll_eq_map, Tree.preorderAll_turnedAll]
  constructor
  · rintro ⟨_, hmem, type, htype, hpoints, hbare⟩
    obtain ⟨tree, htree, rfl⟩ := List.mem_map.1 hmem
    rw [Tree.comparedTypes_turned] at htype
    obtain ⟨type, hfound, rfl⟩ := List.mem_map.1 htype
    rw [Tree.hasBareStars_turned] at hbare
    exact ⟨type, List.mem_flatMap.2 ⟨tree, htree, hfound⟩, hpoints, hbare⟩
  · rintro ⟨type, htype, hpoints, hbare⟩
    obtain ⟨tree, htree, htype⟩ := List.mem_flatMap.1 htype
    refine ⟨_, List.mem_map_of_mem htree, type.turned _, ?_, hpoints, ?_⟩
    · rw [Tree.comparedTypes_turned]
      exact List.mem_map_of_mem htype
    · rw [Tree.hasBareStars_turned]
      exact hbare

theorem forall₂_comparedTypes {trees trees' : List Tree} (h : List.Forall₂ s.Similar trees trees') :
    List.Forall₂ s.Similar ((Tree.preorderAll trees).flatMap Tree.comparedTypes)
      ((Tree.preorderAll trees').flatMap Tree.comparedTypes) :=
  List.rel_flatMap (SimilarAll.preorderAll (similarAll_iff.2 h)) fun _ _ => Similar.comparedTypes

/-! ## Comments and comparisons -/

/-- Sources that are read alike off the two texts. -/
def SimilarSource (s : Seam) (source source' : Source) : Prop :=
  ∃ trees trees', List.Forall₂ s.Similar trees trees' ∧
    source.code = trees.map (Tree.turned (Text.byteLength s.plain)) ∧
    source'.code = trees'.map (Tree.turned (Text.byteLength s.commented))

/-- **A text is accepted with the comment if it is without it**, and the sources are similar. -/
theorem parse?_rel (hs : s.Between) :
    Option.Rel s.SimilarSource (Source.parse? s.plain) (Source.parse? s.commented) := by
  have hitems := run?_items_rel hs
  rw [Source.parse?, Source.parse?]
  generalize Grammar.items.run? s.plain = found at hitems
  generalize Grammar.items.run? s.commented = found' at hitems
  cases hitems with
  | none => exact .none
  | some hitems => exact .some ⟨_, _, SimilarItem.trees hitems, codeOf_eq_map .., codeOf_eq_map ..⟩

/-- What is found with the comment is found without it. -/
theorem SimilarSource.found_of_commented {source source' : Source}
    (h : s.SimilarSource source source') {package : String}
    (hfound : (typeComparison? s.commented source'.code package).isSome = true) :
    (typeComparison? s.plain source.code package).isSome = true := by
  obtain ⟨trees, trees', htrees, hcode, hcode'⟩ := h
  rw [hcode', isSome_typeComparison?_turned] at hfound
  rw [hcode, isSome_typeComparison?_turned]
  obtain ⟨type', htype', hpoints, hbare⟩ := hfound
  obtain ⟨type, htype, hsimilar⟩ :=
    (exists_of_forall₂ (forall₂_comparedTypes htrees)).2 type' htype'
  exact ⟨type, htype, (hsimilar.pointsTo_iff package).1 hpoints, hsimilar.hasBareStars.1 hbare⟩

/-- What is found without the comment is still a compared type of the package with it. -/
theorem SimilarSource.compared_of_plain {source source' : Source}
    (h : s.SimilarSource source source') {package : String}
    (hfound : (typeComparison? s.plain source.code package).isSome = true) :
    ∃ tree ∈ Tree.preorderAll source'.code, ∃ type ∈ tree.comparedTypes,
      type.PointsTo s.commented package ∧ (type.hasBareStars = true ∨ s.BehindStar) := by
  obtain ⟨trees, trees', htrees, hcode, hcode'⟩ := h
  rw [hcode, isSome_typeComparison?_turned] at hfound
  obtain ⟨type, htype, hpoints, hbare⟩ := hfound
  obtain ⟨type', htype', hsimilar⟩ :=
    (exists_of_forall₂ (forall₂_comparedTypes htrees)).1 type htype
  obtain ⟨tree', htree', hcompared⟩ := List.mem_flatMap.1 htype'
  refine ⟨tree'.turned (Text.byteLength s.commented), ?_,
    type'.turned (Text.byteLength s.commented), ?_, (hsimilar.pointsTo_iff package).2 hpoints, ?_⟩
  · rw [hcode', ← Tree.turnedAll_eq_map, Tree.preorderAll_turnedAll]
    exact List.mem_map_of_mem htree'
  · rw [Tree.comparedTypes_turned]
    exact List.mem_map_of_mem hcompared
  · rw [Tree.hasBareStars_turned]
    exact hsimilar.hasBareStars.2 hbare

end Seam

/-- **A comment hides no comparison, but behind a star.** Whether a text is accepted does not depend
on a comment between two of its tokens. A comparison that is found with the comment is found without
it. One that is found without it is found with it, unless the comment is the only one behind a star
and a compared type of the package has a comment behind one of its stars. A compared type that is a
name of the package behind any number of bare stars is found, wherever else there are comments. -/
theorem comments_keep_comparisons (s : Seam) (hs : s.Between) :
    (Source.parse? s.commented).isSome = (Source.parse? s.plain).isSome ∧
    ∀ source source', Source.parse? s.plain = some source →
      Source.parse? s.commented = some source' → ∀ package : String,
      ((typeComparison? s.commented source'.code package).isSome = true →
        (typeComparison? s.plain source.code package).isSome = true) ∧
      ((typeComparison? s.plain source.code package).isSome = true →
        (typeComparison? s.commented source'.code package).isSome = true ∨
        s.BehindStar ∧ ∃ tree ∈ Tree.preorderAll source'.code, ∃ type ∈ tree.comparedTypes,
          type.PointsTo s.commented package ∧ type.hasBareStars = false) ∧
      ∀ tree ∈ Tree.preorderAll source'.code, ∀ type ∈ tree.comparedTypes,
        type.PointsTo s.commented package → type.hasBareStars = true →
          (typeComparison? s.commented source'.code package).isSome = true := by
  have hrel := Seam.parse?_rel hs
  constructor
  · generalize Source.parse? s.plain = found at hrel
    generalize Source.parse? s.commented = found' at hrel
    cases hrel <;> rfl
  intro source source' hparse hparse' package
  rw [hparse, hparse', Option.rel_some_some] at hrel
  have hbare : ∀ tree ∈ Tree.preorderAll source'.code, ∀ type ∈ tree.comparedTypes,
      type.PointsTo s.commented package → type.hasBareStars = true →
        (typeComparison? s.commented source'.code package).isSome = true :=
    fun tree htree type htype hpoints hbare =>
      typeComparison?_isSome_iff.2 ⟨tree, htree, type, htype, hpoints, hbare⟩
  refine ⟨hrel.found_of_commented, fun hfound => ?_, hbare⟩
  obtain ⟨tree, htree, type, htype, hpoints, hstars⟩ := hrel.compared_of_plain hfound
  by_cases hall : type.hasBareStars = true
  · exact .inl (hbare tree htree type htype hpoints hall)
  · exact .inr ⟨hstars.resolve_left hall, tree, htree, type, htype, hpoints,
      Bool.eq_false_iff.2 hall⟩

/-- An asserted pointer type with a comment between the package name and the dot. -/
def seamBehindName : Seam where
  front := "package p\nfunc f(v T) \x7b\n\t_ = v.(*w".toList
  comment := "/*c*/".toList
  back := ".T)\n\x7d\n".toList

set_option maxRecDepth 10000 in
/-- The comment of `seamBehindName` hides nothing. -/
theorem commented_name_found :
    seamBehindName.Between ∧ ∃ source source',
      Source.parse? seamBehindName.plain = some source ∧
      Source.parse? seamBehindName.commented = some source' ∧
      (typeComparison? seamBehindName.commented source'.code "w").isSome = true := by
  have hcomment : IsComment seamBehindName.back seamBehindName.comment :=
    @IsComment.block seamBehindName.back ['c'] (by decide)
  have hs : seamBehindName.Between :=
    Seam.between_of_isClear hcomment (by decide) (by decide +kernel)
  have hcheck : (Source.parse? seamBehindName.plain).any (fun source =>
      (typeComparison? seamBehindName.plain source.code "w").isSome) = true := by
    decide +kernel
  rw [Option.any_eq_true] at hcheck
  obtain ⟨source, hparse, hfound⟩ := hcheck
  obtain ⟨haccepted, hkeeps⟩ := comments_keep_comparisons seamBehindName hs
  rw [hparse, Option.isSome_some, Option.isSome_iff_exists] at haccepted
  obtain ⟨source', hparse'⟩ := haccepted
  refine ⟨hs, source, source', hparse, hparse', ?_⟩
  rcases (hkeeps source source' hparse hparse' "w").2.1 hfound with hfound' | ⟨hstar, -⟩
  · exact hfound'
  · -- The character in front of the comment is neither a star nor a blank.
    obtain ⟨before, blanks, hfront, hblanks⟩ := hstar
    have hlast : seamBehindName.front.getLast? = some 'w' := by decide
    rw [hfront] at hlast
    cases hnil : blanks.getLast? with
    | none =>
      rw [List.getLast?_eq_none_iff] at hnil
      subst hnil
      simp at hlast
    | some c =>
      have hgap := hblanks c (List.mem_of_getLast? hnil)
      simp [List.getLast?_append, List.getLast?_cons, hnil] at hlast
      subst hlast
      exact absurd hgap (by decide)

/-- Behind the star of a pointer type a comment does hide the comparison. -/
example :
    let found (text : String) := (Source.parse? text.toList).map fun source =>
      (typeComparison? text.toList source.code "w").isSome
    found "package p\nfunc f(v T) \x7b\n\t_ = v.(*w.T)\n\x7d\n" = some true ∧
      found "package p\nfunc f(v T) \x7b\n\t_ = v.(*/*c*/w.T)\n\x7d\n" = some false := by
  decide +kernel

end PinnedImports.Go
