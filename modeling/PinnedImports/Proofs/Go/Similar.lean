import PinnedImports.Proofs.Go.Places
import PinnedImports.Proofs.Go.Seam

/-!
# Trees of two texts

`Similar` trees are read off the two texts of a seam in the same way: they have the same kinds, but
for comments behind a star (`SameKind`), and their names have the same characters. Places are not
compared. Whatever the grammar asks of a tree is the same for similar trees.
-/

set_option autoImplicit false

namespace PinnedImports.Go

/-- The characters of a node whose places are those of a lexeme. -/
theorem Tree.textIn_lexeme {text cs : List Char} (h : cs <:+ text) (n : Nat) (kind : Kind)
    (children : List Tree) :
    ((node kind (Text.byteLength cs) (Text.byteLength (cs.drop n)) children).turned
        (Text.byteLength text)).textIn text = String.ofList (cs.take n) := by
  obtain ⟨before, rfl⟩ := h
  have hsplit := List.take_append_drop n cs
  generalize cs.take n = word at hsplit ⊢
  generalize cs.drop n = rest at hsplit ⊢
  subst hsplit
  have hlength : Text.byteLength (word ++ rest) - Text.byteLength rest = Text.byteLength word := by
    rw [Text.byteLength_append, Nat.add_sub_cancel]
  rw [turned_node, textIn, start, stop, Text.slice_tail le_rfl, Nat.sub_self, hlength,
    Text.dropBytes, Text.takeBytes_byteLength]

namespace Seam

variable {s : Seam}

/-- The same kind, but for a comment behind a star. -/
inductive SameKind (s : Seam) : Kind → Kind → Prop
  | same (kind : Kind) : s.SameKind kind kind
  | pointer {commented commented' : Bool} :
      s.SameFlag commented commented' →
        s.SameKind (.pointerType commented) (.pointerType commented')
  | dereference {commented commented' : Bool} :
      s.SameFlag commented commented' →
        s.SameKind (.dereference commented) (.dereference commented')

/-- The same characters in the two texts. -/
def SameWord (s : Seam) (tree tree' : Tree) : Prop :=
  (tree'.turned (Text.byteLength s.commented)).textIn s.commented =
    (tree.turned (Text.byteLength s.plain)).textIn s.plain

/-- What types are made of: a qualified type starts with a name, and the parts of an index that can
be read as a type can be read so too. -/
def HoldsTypes : Kind → List Tree → Prop
  | .qualifiedType, children => ∃ operand ∈ children.head?, operand.kind = .name
  | .index _ true, children => ∀ child ∈ children, child.isElement = true
  | _, _ => True

mutual

/-- Trees that are read alike off the two texts. -/
def Similar (s : Seam) : Tree → Tree → Prop
  | .node kind start stop children, .node kind' start' stop' children' =>
    s.SameKind kind kind' ∧
      ((kind = .name ∨ kind = .allocator) →
        s.SameWord (.node kind start stop children) (.node kind' start' stop' children')) ∧
      HoldsTypes kind children ∧ SimilarAll s children children'

/-- Several trees of which each is similar to its counterpart. -/
def SimilarAll (s : Seam) : List Tree → List Tree → Prop
  | [], [] => True
  | tree :: rest, tree' :: rest' => Similar s tree tree' ∧ SimilarAll s rest rest'
  | _, _ => False

end

theorem similarAll_iff {trees trees' : List Tree} :
    s.SimilarAll trees trees' ↔ List.Forall₂ s.Similar trees trees' := by
  induction trees generalizing trees' with
  | nil =>
    cases trees' with
    | nil => simp [SimilarAll]
    | cons => simp [SimilarAll]
  | cons tree rest ih =>
    cases trees' with
    | nil => simp [SimilarAll]
    | cons tree' rest' => rw [SimilarAll, ih, List.forall₂_cons]

/-- A node that is not a word. -/
theorem similar_node {kind kind' : Kind} (hkind : s.SameKind kind kind')
    (hword : kind ∉ [.name, .allocator]) {children children' : List Tree}
    (htypes : HoldsTypes kind children) (h : List.Forall₂ s.Similar children children')
    (start stop start' stop' : Nat) :
    s.Similar (.node kind start stop children) (.node kind' start' stop' children') := by
  rw [Similar]
  refine ⟨hkind, fun hname => absurd ?_ hword, htypes, similarAll_iff.2 h⟩
  simpa using hname

/-- A word at the front of two texts that agree. -/
theorem similar_word {settled : Bool} {cs cs' : List Char} (hlike : s.Like settled cs cs')
    {n : Nat} (htake : cs'.take n = cs.take n) {kind : Kind} (hkind : kind ∈ [.name, .allocator]) :
    s.Similar (.node kind (Text.byteLength cs) (Text.byteLength (cs.drop n)) [])
      (.node kind (Text.byteLength cs') (Text.byteLength (cs'.drop n)) []) := by
  have htypes : HoldsTypes kind [] := by
    simp only [List.mem_cons, List.not_mem_nil, or_false] at hkind
    rcases hkind with rfl | rfl <;> trivial
  rw [Similar]
  refine ⟨.same kind, fun _ => ?_, htypes, trivial⟩
  rw [SameWord, Tree.textIn_lexeme hlike.suffix_plain, Tree.textIn_lexeme hlike.suffix_commented,
    htake]

theorem similar_qualified {operand operand' name name' : Tree}
    (hoperand : s.Similar operand operand') (hkind : operand.kind = .name)
    (hname : s.Similar name name') (start stop start' stop' : Nat) :
    s.Similar (.node .qualifiedType start stop [operand, name])
      (.node .qualifiedType start' stop' [operand', name']) :=
  similar_node (.same .qualifiedType) (by simp) ⟨operand, rfl, hkind⟩
    (.cons hoperand (.cons hname .nil)) ..

/-! ## What the grammar asks of trees -/

theorem isValue_congr {kind kind' : Kind} (h : s.SameKind kind kind')
    {children children' : List Tree}
    (hall : Tree.allValues children' = Tree.allValues children) (start stop start' stop' : Nat) :
    (Tree.node kind' start' stop' children').isValue =
      (Tree.node kind start stop children).isValue := by
  cases h with
  | same => cases kind <;> simp [Tree.isValue, hall]
  | pointer => simp [Tree.isValue]
  | @dereference commented commented' =>
    cases commented <;> cases commented' <;> simp [Tree.isValue]

mutual

theorem Similar.isValue : ∀ {tree tree' : Tree}, s.Similar tree tree' → tree'.isValue = tree.isValue
  | .node _ _ _ children, .node _ _ _ children', h => by
    rw [Similar] at h
    exact isValue_congr h.1 (SimilarAll.allValues h.2.2.2) ..

theorem SimilarAll.allValues : ∀ {trees trees' : List Tree}, s.SimilarAll trees trees' →
    Tree.allValues trees' = Tree.allValues trees
  | [], [], _ => rfl
  | tree :: rest, tree' :: rest', h => by
    rw [SimilarAll] at h
    rw [Tree.allValues, Tree.allValues, h.1.isValue, SimilarAll.allValues h.2]
  | [], _ :: _, h => by simp [SimilarAll] at h
  | _ :: _, [], h => by simp [SimilarAll] at h

end

theorem Similar.kind {tree tree' : Tree} (h : s.Similar tree tree') :
    s.SameKind tree.kind tree'.kind := by
  obtain ⟨kind, start, stop, children⟩ := tree
  obtain ⟨kind', start', stop', children'⟩ := tree'
  rw [Similar] at h
  exact h.1

theorem Similar.children {tree tree' : Tree} (h : s.Similar tree tree') :
    List.Forall₂ s.Similar tree.children tree'.children := by
  obtain ⟨kind, start, stop, children⟩ := tree
  obtain ⟨kind', start', stop', children'⟩ := tree'
  rw [Similar] at h
  exact similarAll_iff.1 h.2.2.2

/-- Kinds without a star are the same. -/
theorem SameKind.eq_iff {kind kind' other : Kind} (h : s.SameKind kind kind')
    (hpointer : ∀ commented, other ≠ .pointerType commented)
    (hdereference : ∀ commented, other ≠ .dereference commented) :
    kind' = other ↔ kind = other := by
  cases h with
  | same => exact Iff.rfl
  | pointer => exact ⟨fun h => absurd h.symm (hpointer _), fun h => absurd h.symm (hpointer _)⟩
  | dereference =>
    exact ⟨fun h => absurd h.symm (hdereference _), fun h => absurd h.symm (hdereference _)⟩

theorem Similar.kind_eq_name {tree tree' : Tree} (h : s.Similar tree tree') :
    tree'.kind = .name ↔ tree.kind = .name :=
  h.kind.eq_iff (by simp) (by simp)

theorem Similar.isName {tree tree' : Tree} (h : s.Similar tree tree') :
    tree'.isName = tree.isName := by
  have hallocator : tree'.kind = .allocator ↔ tree.kind = .allocator :=
    h.kind.eq_iff (by simp) (by simp)
  rw [Tree.isName, Tree.isName]
  simp only [h.kind_eq_name, hallocator]

theorem isQualified_selector_congr {children children' : List Tree}
    (h : List.Forall₂ s.Similar children children') (start stop start' stop' : Nat) :
    (Tree.node .selector start' stop' children').isQualified =
      (Tree.node .selector start stop children).isQualified := by
  cases h with
  | nil => rfl
  | cons hoperand _ =>
    rw [Tree.isQualified, Tree.isQualified]
    simp only [hoperand.kind_eq_name]

theorem Similar.isQualified {tree tree' : Tree} (h : s.Similar tree tree') :
    tree'.isQualified = tree.isQualified := by
  obtain ⟨kind, start, stop, children⟩ := tree
  obtain ⟨kind', start', stop', children'⟩ := tree'
  have hchildren := h.children
  have hkind := h.kind
  simp only [Tree.children, Tree.kind] at hchildren hkind
  cases hkind with
  | same =>
    by_cases hselector : kind = .selector
    · subst hselector
      exact isQualified_selector_congr hchildren ..
    · cases kind <;> first | rfl | exact absurd rfl hselector
  | pointer => rfl
  | dereference => rfl

theorem isType_congr {kind kind' : Kind} (h : s.SameKind kind kind')
    {children children' : List Tree}
    (hchildren : List.Forall₂ s.Similar children children')
    (hall : Tree.allTypes children' = Tree.allTypes children) (start stop start' stop' : Nat) :
    (Tree.node kind' start' stop' children').isType =
      (Tree.node kind start stop children).isType := by
  have hselector := isQualified_selector_congr hchildren start stop start' stop'
  cases h with
  | same => cases kind <;> simp [Tree.isType, hall, hselector]
  | @pointer commented commented' =>
    cases commented <;> cases commented' <;> simp [Tree.isType]
  | dereference => simp [Tree.isType, hall]

mutual

theorem Similar.isType : ∀ {tree tree' : Tree}, s.Similar tree tree' → tree'.isType = tree.isType
  | .node _ _ _ children, .node _ _ _ children', h => by
    rw [Similar] at h
    exact isType_congr h.1 (similarAll_iff.1 h.2.2.2) (SimilarAll.allTypes h.2.2.2) ..

theorem SimilarAll.allTypes : ∀ {trees trees' : List Tree}, s.SimilarAll trees trees' →
    Tree.allTypes trees' = Tree.allTypes trees
  | [], [], _ => rfl
  | tree :: rest, tree' :: rest', h => by
    rw [SimilarAll] at h
    rw [Tree.allTypes, Tree.allTypes, h.1.isType, SimilarAll.allTypes h.2]
  | [], _ :: _, h => by simp [SimilarAll] at h
  | _ :: _, [], h => by simp [SimilarAll] at h

end

theorem Similar.isElement {tree tree' : Tree} (h : s.Similar tree tree') :
    tree'.isElement = tree.isElement := by
  have hkind : tree'.kind = .alternation ↔ tree.kind = .alternation :=
    h.kind.eq_iff (by simp) (by simp)
  rw [Tree.isElement, Tree.isElement, h.isType, (similarAll_iff.2 h.children).allTypes]
  simp only [hkind]

/-- What is the same for similar trees is the same for all of them. -/
theorem all_congr {p : Tree → Bool}
    (hp : ∀ {tree tree' : Tree}, s.Similar tree tree' → p tree' = p tree)
    {trees trees' : List Tree} (h : List.Forall₂ s.Similar trees trees') :
    trees'.all p = trees.all p := by
  induction h with
  | nil => rfl
  | cons htree _ ih => rw [List.all_cons, List.all_cons, hp htree, ih]

/-! ## Readings as types -/

theorem isElement_of_isType {tree : Tree} (h : tree.isType = true) : tree.isElement = true := by
  rw [Tree.isElement, h, Bool.true_or]

theorem forall_isElement_of_allTypes {trees : List Tree} (h : Tree.allTypes trees = true) :
    ∀ tree ∈ trees, tree.isElement = true := by
  induction trees with
  | nil => simp
  | cons tree rest ih =>
    rw [Tree.allTypes, Bool.and_eq_true] at h
    exact List.forall_mem_cons.2 ⟨isElement_of_isType h.1, ih h.2⟩

theorem exists_name_of_isQualified {start stop : Nat} {children : List Tree}
    (h : (Tree.node .selector start stop children).isQualified = true) :
    ∃ operand ∈ children.head?, operand.kind = .name := by
  cases children with
  | nil => simp [Tree.isQualified] at h
  | cons operand rest =>
    rw [Tree.isQualified, decide_eq_true_eq] at h
    exact ⟨operand, rfl, h⟩

/-- The reading of a type as a type is a type. -/
theorem isType_asType {tree : Tree} (h : tree.isType = true) : tree.asType.isType = true := by
  obtain ⟨kind, start, stop, children⟩ := tree
  cases kind <;> first
    | rfl
    | exact h
    | (simp [Tree.isType] at h; done)
    | (rename_i commented; cases commented <;> rfl)

theorem allTypes_allAsTypes {trees : List Tree} (h : Tree.allTypes trees = true) :
    Tree.allTypes (Tree.allAsTypes trees) = true := by
  induction trees with
  | nil => rfl
  | cons tree rest ih =>
    rw [Tree.allTypes, Bool.and_eq_true] at h
    rw [Tree.allAsTypes, Tree.allTypes, isType_asType h.1, ih h.2, Bool.and_self]

/-- The reading of an element as a type is an element. -/
theorem isElement_asType {tree : Tree} (h : tree.isElement = true) :
    tree.asType.isElement = true := by
  rw [Tree.isElement, Bool.or_eq_true, Bool.and_eq_true, decide_eq_true_eq] at h
  rcases h with h | ⟨hkind, hall⟩
  · exact isElement_of_isType (isType_asType h)
  · obtain ⟨kind, start, stop, children⟩ := tree
    obtain rfl : kind = .alternation := hkind
    have htypes : Tree.allTypes (Tree.allAsTypes children) = true := allTypes_allAsTypes hall
    rw [Tree.asType, Tree.isElement, Tree.kind, Tree.children, htypes]
    simp

theorem forall_isElement_allAsTypes {trees : List Tree}
    (h : ∀ tree ∈ trees, tree.isElement = true) :
    ∀ tree ∈ Tree.allAsTypes trees, tree.isElement = true := by
  induction trees with
  | nil => exact h
  | cons tree rest ih =>
    rw [List.forall_mem_cons] at h
    rw [Tree.allAsTypes]
    exact List.forall_mem_cons.2 ⟨isElement_asType h.1, ih h.2⟩

theorem forall_isElement_of_index {value type : Bool} {start stop : Nat} {children : List Tree}
    (htypes : HoldsTypes (.index value type) children)
    (h : (Tree.node (.index value type) start stop children).isElement = true) :
    ∀ child ∈ children, child.isElement = true := by
  cases type with
  | true => exact htypes
  | false => simp [Tree.isElement, Tree.isType, Tree.kind] at h

theorem allTypes_of_isElement {kind : Kind} {start stop : Nat} {children : List Tree}
    (hkind : kind ∈ [.parenthesized, .dereference true, .dereference false, .alternation])
    (h : (Tree.node kind start stop children).isElement = true) :
    Tree.allTypes children = true := by
  simp only [List.mem_cons, List.not_mem_nil, or_false] at hkind
  rcases hkind with rfl | rfl | rfl | rfl <;>
    simpa [Tree.isElement, Tree.isType, Tree.kind, Tree.children] using h

mutual

theorem Similar.asType : ∀ {tree tree' : Tree}, s.Similar tree tree' → tree.isElement = true →
    s.Similar tree.asType tree'.asType
  | .node kind start stop children, .node kind' start' stop' children', h, helement => by
    have hparts := h
    rw [Similar] at hparts
    obtain ⟨hkind, -, htypes, hchildren⟩ := hparts
    have hall : (∀ child ∈ children, child.isElement = true) →
        List.Forall₂ s.Similar (Tree.allAsTypes children) (Tree.allAsTypes children') :=
      fun helements => similarAll_iff.1 (SimilarAll.allAsTypes hchildren helements)
    cases hkind with
    | pointer => exact h
    | @dereference commented commented' hflag =>
      refine similar_node (.pointer hflag) (by simp) trivial (hall ?_) ..
      refine forall_isElement_of_allTypes (allTypes_of_isElement ?_ helement)
      cases commented <;> simp
    | same =>
      -- Only these readings differ from the tree itself.
      cases kind
      case selector =>
        refine similar_node (.same _) (by simp) ?_ (similarAll_iff.1 hchildren) ..
        exact exists_name_of_isQualified
          (by simpa [Tree.isElement, Tree.isType, Tree.kind] using helement)
      case parenthesized =>
        refine similar_node (.same .parenthesizedType) (by simp) trivial (hall ?_) ..
        exact forall_isElement_of_allTypes (allTypes_of_isElement (by simp) helement)
      case dereference commented =>
        refine similar_node (.same (.pointerType commented)) (by simp) trivial (hall ?_) ..
        refine forall_isElement_of_allTypes (allTypes_of_isElement ?_ helement)
        cases commented <;> simp
      case alternation =>
        refine similar_node (.same .alternation) (by simp) trivial (hall ?_) ..
        exact forall_isElement_of_allTypes (allTypes_of_isElement (by simp) helement)
      case index value type =>
        exact similar_node (.same .genericType) (by simp) trivial
          (hall (forall_isElement_of_index htypes helement)) ..
      all_goals exact h

theorem SimilarAll.allAsTypes : ∀ {trees trees' : List Tree}, s.SimilarAll trees trees' →
    (∀ tree ∈ trees, tree.isElement = true) →
      s.SimilarAll (Tree.allAsTypes trees) (Tree.allAsTypes trees')
  | [], [], _, _ => by trivial
  | tree :: rest, tree' :: rest', h, hall => by
    rw [SimilarAll] at h
    rw [List.forall_mem_cons] at hall
    rw [Tree.allAsTypes, Tree.allAsTypes, SimilarAll]
    exact ⟨h.1.asType hall.1, SimilarAll.allAsTypes h.2 hall.2⟩
  | [], _ :: _, h, _ => by simp [SimilarAll] at h
  | _ :: _, [], h, _ => by simp [SimilarAll] at h

end

end Seam

end PinnedImports.Go
