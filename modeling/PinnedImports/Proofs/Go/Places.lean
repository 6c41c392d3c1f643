import PinnedImports.Proofs.Text.Splice
import PinnedImports.Proofs.TypeIdentity

/-!
# Code behind a change of the text

The places of a tree are read from the end of the text. So trees that lie behind a change of the text
keep their characters, and the same comparisons are found in them
(`typeComparison?_isSome_congr`); only the numbers of their lines may differ.
-/

set_option autoImplicit false

namespace PinnedImports.Text

/-- What stands behind a text is found by the places from its end. -/
theorem dropBytes_append (a b : List Char) (n : Nat) :
    dropBytes (byteLength a + n) (a ++ b) = dropBytes n b := by
  induction a with
  | nil => rw [byteLength_nil, Nat.zero_add, List.nil_append]
  | cons c a ih =>
    have hc := Char.utf8Size_pos c
    obtain ⟨k, hk⟩ : ∃ k, byteLength (c :: a) + n = k + 1 :=
      ⟨byteLength (c :: a) + n - 1, by rw [byteLength_cons]; omega⟩
    have hrest : k + 1 - c.utf8Size = byteLength a + n := by
      rw [← hk, byteLength_cons]
      omega
    rw [hk, List.cons_append, dropBytes, hrest, ih]

/-- A range of a tail, given from the end of the text. -/
theorem slice_tail {tail : List Char} {start : Nat} (h : start ≤ byteLength tail) (a : List Char)
    (stop : Nat) :
    slice (byteLength (a ++ tail) - start) (byteLength (a ++ tail) - stop) (a ++ tail) =
      takeBytes (start - stop) (dropBytes (byteLength tail - start) tail) := by
  have hstart : byteLength (a ++ tail) - start = byteLength a + (byteLength tail - start) := by
    rw [byteLength_append]
    omega
  have hlength : byteLength (a ++ tail) - stop - (byteLength (a ++ tail) - start) =
      start - stop := by
    rw [byteLength_append]
    omega
  rw [slice, hlength, hstart, dropBytes_append]

/-- Behind the last edit the text is kept. -/
theorem Spliced.exists_tail {offset : Nat} {text result : List Char} {es : List Edit}
    (h : Spliced offset text es result) :
    ∃ a a' tail, text = a ++ tail ∧ result = a' ++ tail ∧
      (es = [] ∧ a = [] ∧ a' = [] ∨ ∃ e ∈ es, e.stop = offset + byteLength a) := by
  induction h with
  | @keep offset text => exact ⟨[], [], text, rfl, rfl, .inl ⟨rfl, rfl, rfl⟩⟩
  | @edit offset before old after result e es hold hstart hstop hrest ih =>
    obtain ⟨a, a', tail, rfl, rfl, hlast⟩ := ih
    refine ⟨before ++ (old ++ a), before ++ (e.text ++ a'), tail, by simp, by simp, .inr ?_⟩
    rcases hlast with ⟨rfl, rfl, rfl⟩ | ⟨f, hf, hfstop⟩
    · refine ⟨e, List.mem_cons_self .., ?_⟩
      rw [hstop, hstart, List.append_nil, byteLength_append, Nat.add_assoc]
    · refine ⟨f, List.mem_cons_of_mem _ hf, ?_⟩
      rw [hfstop, hstop, hstart, byteLength_append, byteLength_append]
      omega

end PinnedImports.Text

namespace PinnedImports.Go

namespace Tree

/-! ## Nodes of turned trees -/

theorem turnedAll_eq_map (size : Nat) (ts : List Tree) : turnedAll size ts = ts.map (turned size) := by
  induction ts with
  | nil => rfl
  | cons t ts ih => rw [turnedAll, ih, List.map_cons]

theorem turned_node (size : Nat) (kind : Kind) (start stop : Nat) (children : List Tree) :
    turned size (node kind start stop children) =
      node kind (size - start) (size - stop) (children.map (turned size)) := by
  rw [turned, turnedAll_eq_map]

/-- A turned tree comes of a tree with the same root. -/
theorem exists_of_turned {size : Nat} {tree : Tree} {kind : Kind} {start stop : Nat}
    {children : List Tree} (h : tree.turned size = node kind start stop children) :
    ∃ s e cs, tree = node kind s e cs ∧ start = size - s ∧ stop = size - e ∧
      children = cs.map (turned size) := by
  obtain ⟨kind', s, e, cs⟩ := tree
  rw [turned_node, node.injEq] at h
  obtain ⟨rfl, hstart, hstop, hchildren⟩ := h
  exact ⟨s, e, cs, rfl, hstart.symm, hstop.symm, hchildren.symm⟩

mutual

theorem preorder_turned (size : Nat) : ∀ t : Tree,
    (t.turned size).preorder = t.preorder.map (turned size)
  | node kind start stop children => by
    rw [turned, preorder, preorderAll_turnedAll, preorder, List.map_cons, turned]

theorem preorderAll_turnedAll (size : Nat) : ∀ ts : List Tree,
    preorderAll (turnedAll size ts) = (preorderAll ts).map (turned size)
  | [] => rfl
  | t :: rest => by
    rw [turnedAll, preorderAll, preorderAll, preorder_turned, preorderAll_turnedAll, List.map_append]

end

theorem kind_turned (size : Nat) (t : Tree) : (t.turned size).kind = t.kind := by
  obtain ⟨kind, start, stop, children⟩ := t
  rfl

theorem isName_turned (size : Nat) (t : Tree) : (t.turned size).isName = t.isName := by
  rw [isName, isName, kind_turned]

theorem children_turned (size : Nat) (t : Tree) :
    (t.turned size).children = t.children.map (turned size) := by
  obtain ⟨kind, start, stop, children⟩ := t
  rw [turned_node]
  rfl

theorem comparedTypes_turned (size : Nat) (t : Tree) :
    (t.turned size).comparedTypes = t.comparedTypes.map (turned size) := by
  obtain ⟨kind, start, stop, children⟩ := t
  rw [turned_node]
  by_cases hassertion : kind = .assertion
  · subst hassertion
    rcases children with _ | ⟨a, _ | ⟨b, _ | ⟨c, rest⟩⟩⟩ <;> rfl
  by_cases hcase : kind = .typeCase
  · subst hcase
    cases children with
    | nil => rfl
    | cons types rest => exact children_turned size types
  · have hnone : ∀ start stop children, (node kind start stop children).comparedTypes = [] := by
      intro start stop children
      rw [comparedTypes]
      · simp [hassertion]
      · simp [hcase]
    rw [hnone, hnone, List.map_nil]

/-! ## Trees in the tail of a text -/

/-- No node of the tree begins further than `n` bytes from the end. -/
def Within (n : Nat) (t : Tree) : Prop := ∀ part ∈ t.preorder, part.start ≤ n

theorem self_mem_preorder (t : Tree) : t ∈ t.preorder := by
  obtain ⟨kind, start, stop, children⟩ := t
  rw [preorder]
  exact List.mem_cons_self ..

theorem preorder_subset_preorderAll {t : Tree} {ts : List Tree} (h : t ∈ ts) :
    ∀ part ∈ t.preorder, part ∈ preorderAll ts := by
  intro part hpart
  induction ts with
  | nil => simp at h
  | cons first rest ih =>
    rw [preorderAll, List.mem_append]
    rcases List.mem_cons.1 h with rfl | h
    · exact .inl hpart
    · exact .inr (ih h)

mutual

theorem preorder_trans : ∀ {t u : Tree}, u ∈ t.preorder → ∀ part ∈ u.preorder, part ∈ t.preorder
  | node kind start stop children, u, hu, part, hpart => by
    rw [preorder, List.mem_cons] at hu ⊢
    rcases hu with rfl | hu
    · rwa [preorder, List.mem_cons] at hpart
    · exact .inr (preorderAll_trans hu part hpart)

theorem preorderAll_trans : ∀ {ts : List Tree} {u : Tree}, u ∈ preorderAll ts →
    ∀ part ∈ u.preorder, part ∈ preorderAll ts
  | [], u, hu, part, hpart => by simp [preorderAll] at hu
  | t :: rest, u, hu, part, hpart => by
    rw [preorderAll, List.mem_append] at hu ⊢
    exact hu.imp (fun h => preorder_trans h part hpart) fun h => preorderAll_trans h part hpart

end

theorem Within.child {n start stop : Nat} {kind : Kind} {children : List Tree}
    (h : Within n (node kind start stop children)) {t : Tree} (ht : t ∈ children) : Within n t := by
  intro part hpart
  apply h
  rw [preorder]
  exact List.mem_cons_of_mem _ (preorder_subset_preorderAll ht part hpart)

theorem Within.start_le {n : Nat} {t : Tree} (h : Within n t) : t.start ≤ n :=
  h t (self_mem_preorder t)

theorem Within.comparedTypes {n : Nat} {t : Tree} (h : Within n t) :
    ∀ type ∈ t.comparedTypes, Within n type := by
  intro type htype
  obtain ⟨kind, start, stop, children⟩ := t
  rw [Tree.comparedTypes.eq_def] at htype
  split at htype
  · rename_i heq
    rw [node.injEq] at heq
    obtain ⟨-, -, -, rfl⟩ := heq
    rw [List.mem_singleton] at htype
    exact h.child (by simp [htype])
  · rename_i types _ heq
    rw [node.injEq] at heq
    obtain ⟨-, -, -, rfl⟩ := heq
    have htypes := h.child (List.mem_cons_self ..)
    obtain ⟨kind', start', stop', children'⟩ := types
    exact htypes.child htype
  · simp at htype

/-- A tree in the tail of a text keeps its characters. -/
theorem textIn_tail {tail : List Char} {t : Tree} (h : t.start ≤ Text.byteLength tail)
    (a a' : List Char) :
    (t.turned (Text.byteLength (a ++ tail))).textIn (a ++ tail) =
      (t.turned (Text.byteLength (a' ++ tail))).textIn (a' ++ tail) := by
  obtain ⟨kind, start, stop, children⟩ := t
  have hstart : start ≤ Text.byteLength tail := h
  have hslice : ∀ front : List Char,
      ((node kind start stop children).turned (Text.byteLength (front ++ tail))).textIn
          (front ++ tail) =
        String.ofList (Text.takeBytes (start - stop)
          (Text.dropBytes (Text.byteLength tail - start) tail)) := by
    intro front
    rw [turned_node, textIn, Tree.start, Tree.stop, Text.slice_tail hstart]
  rw [hslice, hslice]

/-- A type in the tail of a text points to the same package whatever stands in front. -/
theorem PointsTo.tail {a tail : List Char} {package : String} {u : Tree}
    (h : u.PointsTo (a ++ tail) package) (a' : List Char) :
    ∀ {t : Tree}, t.turned (Text.byteLength (a ++ tail)) = u →
      t.Within (Text.byteLength tail) → u.hasBareStars = true →
        (t.turned (Text.byteLength (a' ++ tail))).PointsTo (a' ++ tail) package ∧
          (t.turned (Text.byteLength (a' ++ tail))).hasBareStars = true := by
  -- Each constructor looks at the kind of a node, which does not turn, or at the characters of a
  -- child, which lie in the tail.
  induction h with
  | @qualified start stop operand name hpackage =>
    intro t ht hwithin _
    obtain ⟨s, e, cs, rfl, -, -, hcs⟩ := exists_of_turned ht
    obtain ⟨o, rest, rfl, rfl, hrest⟩ := List.map_eq_cons_iff.1 hcs.symm
    obtain ⟨n, rfl, rfl⟩ := List.map_eq_singleton_iff.1 hrest
    rw [textIn_tail (hwithin.child (by simp)).start_le a a'] at hpackage
    rw [turned_node]
    exact ⟨.qualified hpackage, rfl⟩
  | @selector start stop operand name hname hpackage =>
    intro t ht hwithin _
    obtain ⟨s, e, cs, rfl, -, -, hcs⟩ := exists_of_turned ht
    obtain ⟨o, rest, rfl, rfl, hrest⟩ := List.map_eq_cons_iff.1 hcs.symm
    obtain ⟨n, rfl, rfl⟩ := List.map_eq_singleton_iff.1 hrest
    rw [textIn_tail (hwithin.child (by simp)).start_le a a'] at hpackage
    rw [isName_turned] at hname
    rw [turned_node]
    exact ⟨.selector (by rw [isName_turned]; exact hname) hpackage, rfl⟩
  | @pointer commented start stop type _ ih =>
    intro t ht hwithin hbare
    obtain ⟨s, e, cs, rfl, -, -, hcs⟩ := exists_of_turned ht
    obtain ⟨o, rfl, ho⟩ := List.map_eq_singleton_iff.1 hcs.symm
    rw [hasBareStars, Bool.and_eq_true] at hbare
    obtain ⟨hpoints, hbare'⟩ := ih ho (hwithin.child (List.mem_cons_self ..)) hbare.2
    rw [turned_node]
    refine ⟨.pointer hpoints, ?_⟩
    rw [List.map_singleton, hasBareStars, hbare.1, hbare']
    rfl
  | @dereference commented start stop operand _ ih =>
    intro t ht hwithin hbare
    obtain ⟨s, e, cs, rfl, -, -, hcs⟩ := exists_of_turned ht
    obtain ⟨o, rfl, ho⟩ := List.map_eq_singleton_iff.1 hcs.symm
    rw [hasBareStars] at hbare
    obtain ⟨hpoints, hbare'⟩ := ih ho (hwithin.child (List.mem_cons_self ..)) hbare
    rw [turned_node]
    refine ⟨.dereference hpoints, ?_⟩
    rw [List.map_singleton, hasBareStars, hbare']

end Tree

theorem typeComparison?_isSome_tail {tail : List Char} {trees : List Tree}
    (h : ∀ t ∈ Tree.preorderAll trees, t.start ≤ Text.byteLength tail) (a a' : List Char)
    {package : String}
    (hsome : (typeComparison? (a ++ tail) (trees.map (Tree.turned (Text.byteLength (a ++ tail))))
      package).isSome = true) :
    (typeComparison? (a' ++ tail) (trees.map (Tree.turned (Text.byteLength (a' ++ tail))))
      package).isSome = true := by
  rw [typeComparison?_isSome_iff] at hsome ⊢
  have hpreorder : ∀ size, Tree.preorderAll (trees.map (Tree.turned size)) =
      (Tree.preorderAll trees).map (Tree.turned size) := by
    intro size
    rw [← Tree.turnedAll_eq_map, Tree.preorderAll_turnedAll]
  rw [hpreorder] at hsome ⊢
  obtain ⟨_, hmem, type, htype, hpoints, hbare⟩ := hsome
  obtain ⟨t, ht, rfl⟩ := List.mem_map.1 hmem
  rw [Tree.comparedTypes_turned] at htype
  obtain ⟨u, hu, rfl⟩ := List.mem_map.1 htype
  have hwithin : t.Within (Text.byteLength tail) := fun part hpart =>
    h part (Tree.preorderAll_trans ht part hpart)
  refine ⟨_, List.mem_map_of_mem ht, u.turned _, ?_,
    hpoints.tail a' rfl (hwithin.comparedTypes u hu) hbare⟩
  rw [Tree.comparedTypes_turned]
  exact List.mem_map_of_mem hu

/-- **The same comparisons are found in the tail of a text, whatever stands in front.** -/
theorem typeComparison?_isSome_congr {tail : List Char} {trees : List Tree}
    (h : ∀ t ∈ Tree.preorderAll trees, t.start ≤ Text.byteLength tail) (a a' : List Char)
    (package : String) :
    (typeComparison? (a' ++ tail) (trees.map (Tree.turned (Text.byteLength (a' ++ tail))))
        package).isSome =
      (typeComparison? (a ++ tail) (trees.map (Tree.turned (Text.byteLength (a ++ tail))))
        package).isSome := by
  rw [Bool.eq_iff_iff]
  exact ⟨typeComparison?_isSome_tail h a' a, typeComparison?_isSome_tail h a a'⟩

end PinnedImports.Go
