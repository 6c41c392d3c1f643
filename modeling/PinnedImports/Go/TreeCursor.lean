import PinnedImports.Go.Tree

/-!
# Searching a syntax tree

A cursor stands on a node of a tree. It knows the siblings behind the node and the nodes above, each
with the siblings behind it, and moves to the first child, the next sibling or the parent. `search`
asks a predicate of one node after another, each before its parts and the parts in source order. From
a node without parts it climbs to the nearest node that has a next sibling; at the root it ends.

`ahead` lists the nodes that are still to come. Each step to a next node leaves one less of them
(`ahead_eq`), which is why the search ends and asks of every node once (`search_eq`).
-/

set_option autoImplicit false

namespace PinnedImports.Go

/-- A place in a tree. -/
structure TreeCursor where
  node : Tree
  /-- the siblings behind the node -/
  later : List Tree
  /-- the nodes above, the nearest first, each with the siblings behind it -/
  above : List (Tree × List Tree)

namespace TreeCursor

/-- The cursor on the root of a tree; the root has no siblings. -/
def ofRoot (root : Tree) : TreeCursor := ⟨root, [], []⟩

/-- The cursor on the first part of the node. -/
def firstChild? (c : TreeCursor) : Option TreeCursor :=
  match c.node.children with
  | [] => none
  | child :: others => some ⟨child, others, (c.node, c.later) :: c.above⟩

/-- The cursor on the sibling behind the node. -/
def nextSibling? (c : TreeCursor) : Option TreeCursor :=
  match c.later with
  | [] => none
  | next :: others => some ⟨next, others, c.above⟩

/-- The cursor on the node above. -/
def parent? (c : TreeCursor) : Option TreeCursor :=
  match c.above with
  | [] => none
  | (parent, others) :: above => some ⟨parent, others, above⟩

theorem length_above_of_parent? {c up : TreeCursor} (h : c.parent? = some up) :
    up.above.length < c.above.length := by
  obtain ⟨node, later, _ | ⟨⟨parent, others⟩, above⟩⟩ := c
  · simp [parent?] at h
  · simp only [parent?, Option.some.injEq] at h
    subst h
    exact Nat.lt_succ_self _

/-- The next sibling of the node, or of the nearest node above that has one. -/
def climb? (c : TreeCursor) : Option TreeCursor :=
  match c.nextSibling? with
  | some next => some next
  | none =>
    match _h : c.parent? with
    | none => none
    | some up => up.climb?
termination_by c.above.length
decreasing_by exact length_above_of_parent? _h

/-- The place behind this one in the order of the search. -/
def next? (c : TreeCursor) : Option TreeCursor :=
  match c.firstChild? with
  | some child => some child
  | none => c.climb?

/-! ## The nodes that are still to come -/

/-- The nodes behind the cursor's own and its parts. -/
def behind (c : TreeCursor) : List Tree :=
  Tree.preorderAll c.later ++ c.above.flatMap fun up => Tree.preorderAll up.2

/-- The nodes from the cursor's own on. -/
def ahead (c : TreeCursor) : List Tree := c.node.preorder ++ c.behind

theorem ahead_ofRoot (root : Tree) : (ofRoot root).ahead = root.preorder := by
  rw [ahead, behind, ofRoot, Tree.preorderAll, List.flatMap_nil, List.append_nil, List.append_nil]

theorem behind_of_nextSibling? {c next : TreeCursor} (h : c.nextSibling? = some next) :
    c.behind = next.ahead := by
  obtain ⟨node, _ | ⟨sibling, later⟩, above⟩ := c
  · simp [nextSibling?] at h
  · simp only [nextSibling?, Option.some.injEq] at h
    subst h
    rw [behind, ahead, behind, Tree.preorderAll, List.append_assoc]

/-- Nothing but the parent's siblings is left behind a last sibling. -/
theorem behind_of_last {c : TreeCursor} (h : c.nextSibling? = none) :
    c.behind = (c.parent?.map behind).getD [] := by
  obtain ⟨node, _ | ⟨sibling, later⟩, above⟩ := c
  · cases above with
    | nil => rfl
    | cons up above => rfl
  · simp [nextSibling?] at h

/-- Climbing passes no node that is still to come. -/
theorem behind_eq (c : TreeCursor) : c.behind = (c.climb?.map ahead).getD [] := by
  -- The rounds of the climb: a sibling ends it, the root ends it, or it goes on at the parent.
  fun_induction climb? c with
  | case1 c next hnext => exact behind_of_nextSibling? hnext
  | case2 c hlast hroot => rw [behind_of_last hlast, hroot]; rfl
  | case3 c hlast up hup ih => rw [behind_of_last hlast, hup, ← ih]; rfl

/-- A step passes the cursor's own node and no other. -/
theorem ahead_eq (c : TreeCursor) : c.ahead = c.node :: (c.next?.map ahead).getD [] := by
  -- A node without parts is left by climbing, any other one by its first part.
  obtain ⟨⟨kind, start, stop, _ | ⟨child, others⟩⟩, later, above⟩ := c
  · rw [ahead, behind_eq, Tree.preorder, Tree.preorderAll]
    rfl
  · rw [ahead, behind, Tree.preorder, Tree.preorderAll, List.cons_append, List.append_assoc]
    rfl

theorem length_ahead_of_next? {c next : TreeCursor} (h : c.next? = some next) :
    next.ahead.length < c.ahead.length := by
  rw [ahead_eq c, h]
  exact Nat.lt_succ_self _

/-! ## The search -/

variable {m : Type → Type} [Monad m]

/-- The first node from the cursor's own on of which the predicate answers yes. -/
def search (p : Tree → m Bool) (c : TreeCursor) : m (Option Tree) := do
  if ← p c.node then return some c.node
  match _h : c.next? with
  | none => return none
  | some next => next.search p
termination_by c.ahead.length
decreasing_by exact length_ahead_of_next? _h

/-- The predicate is asked of the nodes in their order, up to the first answer yes. -/
theorem search_eq (p : Tree → m Bool) (c : TreeCursor) : c.search p = c.ahead.findM? p := by
  fun_induction search p c with
  | case1 c ih =>
    -- Both ask of the cursor's own node; what they do then depends on the answer only.
    rw [ahead_eq, List.findM?]
    congr 1
    funext found
    cases found with
    | true => rfl
    | false =>
      cases hnext : c.next? with
      | none => rfl
      | some next => exact ih next hnext

end TreeCursor

namespace Tree

/-- The first node that satisfies `p`, searched before its parts and the parts in source order. -/
def find? (p : Tree → Bool) (root : Tree) : Option Tree :=
  Id.run ((TreeCursor.ofRoot root).search fun node => pure (p node))

/-- Searching finds the first node in the order of `preorder`. -/
theorem find?_eq (p : Tree → Bool) (root : Tree) : root.find? p = root.preorder.find? p := by
  rw [find?, TreeCursor.search_eq, TreeCursor.ahead_ofRoot, List.findM?_pure]
  rfl

end Tree

end PinnedImports.Go
