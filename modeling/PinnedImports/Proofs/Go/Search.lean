import PinnedImports.Go.Source
import PinnedImports.Go.TypeShape

/-!
# The first comparison

Searching a tree asks its predicate of the nodes in preorder and stops at the first one that satisfies
it. Which nodes are asked shows in a predicate that writes them down: `FindsFirst` says that they are
the nodes up to the answer, each once, or all of them (`search_finds_first`). The comparison that is
reported of a file is the first one in this order, and so is its line.
-/

set_option autoImplicit false

namespace PinnedImports.Go

/-- Looking at some of the nodes, in their order, has found the first one with `p`. -/
inductive FindsFirst (p : Tree → Bool) (nodes : List Tree) : Option Tree → List Tree → Prop
  | found {before : List Tree} {node : Tree} {after : List Tree} :
      nodes = before ++ node :: after → (∀ other ∈ before, p other = false) → p node = true →
        FindsFirst p nodes (some node) (before ++ [node])
  | missed : (∀ node ∈ nodes, p node = false) → FindsFirst p nodes none nodes

namespace FindsFirst

variable {p : Tree → Bool} {nodes seen : List Tree} {answer : Option Tree}

/-- A node without `p` in front is looked at and passed. -/
theorem cons {node : Tree} (hnode : p node = false) (h : FindsFirst p nodes answer seen) :
    FindsFirst p (node :: nodes) answer (node :: seen) := by
  cases h with
  | @found before found after hnodes hbefore hfound =>
    have hall : ∀ other ∈ node :: before, p other = false :=
      List.forall_mem_cons.2 ⟨hnode, hbefore⟩
    exact .found (by rw [hnodes, List.cons_append]) hall hfound
  | missed hnone => exact .missed (List.forall_mem_cons.2 ⟨hnode, hnone⟩)

theorem answer_eq (h : FindsFirst p nodes answer seen) : answer = nodes.find? p := by
  cases h with
  | found hnodes hbefore hfound =>
    rw [hnodes, eq_comm, List.find?_eq_some_iff_append]
    exact ⟨hfound, _, _, rfl, fun other hother => by rw [hbefore other hother]; rfl⟩
  | missed hnone =>
    rw [eq_comm, List.find?_eq_none]
    exact fun node hnode => by rw [hnone node hnode]; exact Bool.false_ne_true

theorem eq_none_iff (h : FindsFirst p nodes answer seen) :
    answer = none ↔ ∀ node ∈ nodes, p node = false := by
  rw [h.answer_eq, List.find?_eq_none]
  simp only [Bool.not_eq_true]

end FindsFirst

/-- The predicate, which also writes down of what nodes it is asked. -/
def logging (p : Tree → Bool) (node : Tree) : StateM (List Tree) Bool := fun log =>
  (p node, log ++ [node])

theorem findM?_logging_cons (p : Tree → Bool) (node : Tree) (nodes log : List Tree) :
    (node :: nodes).findM? (logging p) log =
      if p node = true then (some node, log ++ [node])
      else nodes.findM? (logging p) (log ++ [node]) := by
  have hstep : (node :: nodes).findM? (logging p) log =
      (match p node with
        | true => pure (some node)
        | false => nodes.findM? (logging p) : StateM (List Tree) (Option Tree)) (log ++ [node]) := rfl
  rw [hstep]
  cases p node <;> rfl

theorem exists_findM?_logging (p : Tree → Bool) (nodes log : List Tree) :
    ∃ answer seen, nodes.findM? (logging p) log = (answer, log ++ seen) ∧
      FindsFirst p nodes answer seen := by
  -- The node of a round is in the log before the others are asked, so the log is general.
  induction nodes generalizing log with
  | nil => exact ⟨none, [], by rw [List.append_nil]; rfl, .missed (by simp)⟩
  | cons node nodes ih =>
    rw [findM?_logging_cons]
    cases hnode : p node with
    | true =>
      have hnodes : node :: nodes = [] ++ node :: nodes := rfl
      exact ⟨some node, [] ++ [node], rfl, .found hnodes (by simp) hnode⟩
    | false =>
      obtain ⟨answer, seen, hrun, hfirst⟩ := ih (log ++ [node])
      refine ⟨answer, node :: seen, ?_, hfirst.cons hnode⟩
      rw [if_neg Bool.false_ne_true, hrun, List.append_assoc, List.singleton_append]

/-- The line on which a comparison starts. -/
def TypeComparison.line : TypeComparison → Nat
  | .assertion line => line
  | .switchCase line => line

/-- Behind the root, which compares nothing, a file is searched for the first comparison of its code,
and the line of this one is reported. -/
theorem exists_search_ofFile (text : List Char) (code : List Tree) (package : String) :
    ∃ first? seen,
      (TreeCursor.ofRoot (Tree.ofFile text code)).search
          (logging (Tree.compares text package)) [] = (first?, Tree.ofFile text code :: seen) ∧
        FindsFirst (Tree.compares text package) (Tree.preorderAll code) first? seen ∧
        (typeComparison? text code package).map TypeComparison.line =
          first?.map fun tree => Text.lineAt tree.start text := by
  have hroot : Tree.compares text package (Tree.ofFile text code) = false := rfl
  obtain ⟨first?, seen, hrun, hfirst⟩ :=
    exists_findM?_logging (Tree.compares text package) (Tree.preorderAll code)
      [Tree.ofFile text code]
  refine ⟨first?, seen, ?_, hfirst, ?_⟩
  · have hnodes : (Tree.ofFile text code).preorder =
        Tree.ofFile text code :: Tree.preorderAll code := by rw [Tree.ofFile, Tree.preorder]
    rw [TreeCursor.search_eq, TreeCursor.ahead_ofRoot, hnodes, findM?_logging_cons, hroot,
      if_neg Bool.false_ne_true, List.nil_append, hrun, List.singleton_append]
  · rw [typeComparison?, Tree.find?_ofFile, ← hfirst.answer_eq, Option.map_map]
    -- An assertion and a case are reported apart, both with the line of the node.
    congr 1
    funext tree
    rw [Function.comp_apply]
    split <;> rfl

/-- **A search finds the first node in preorder.** Whatever else a predicate does when it is asked, a
search asks it of the nodes in preorder up to the first one that satisfies it. So each node in front
of the answer is looked at once and none behind it, and there is no answer exactly where no node
satisfies the predicate. The line that is reported of a file is that of its first comparison. -/
theorem search_finds_first :
    (∀ {m : Type → Type} [Monad m] (p : Tree → m Bool) (root : Tree),
      (TreeCursor.ofRoot root).search p = root.preorder.findM? p) ∧
    (∀ (p : Tree → Bool) (root : Tree), ∃ seen,
      (TreeCursor.ofRoot root).search (logging p) [] = (root.find? p, seen) ∧
        FindsFirst p root.preorder (root.find? p) seen ∧
        (root.find? p = none ↔ ∀ node ∈ root.preorder, p node = false)) ∧
    ∀ (text : List Char) (code : List Tree) (package : String), ∃ first? seen,
      (TreeCursor.ofRoot (Tree.ofFile text code)).search
          (logging (Tree.compares text package)) [] = (first?, Tree.ofFile text code :: seen) ∧
        FindsFirst (Tree.compares text package) (Tree.preorderAll code) first? seen ∧
        (typeComparison? text code package).map TypeComparison.line =
          first?.map fun tree => Text.lineAt tree.start text := by
  refine ⟨fun p root => ?_, fun p root => ?_, exists_search_ofFile⟩
  · rw [TreeCursor.search_eq, TreeCursor.ahead_ofRoot]
  · obtain ⟨answer, seen, hrun, hfirst⟩ := exists_findM?_logging p root.preorder []
    have hanswer : root.find? p = answer := by rw [Tree.find?_eq, hfirst.answer_eq]
    rw [hanswer, TreeCursor.search_eq, TreeCursor.ahead_ofRoot]
    exact ⟨seen, hrun, hfirst, hfirst.eq_none_iff⟩

/-- A file that asserts a type of another package in the condition of a statement, then two types of
the package in question. -/
def laterAssertions : String :=
  "package p\nfunc f(v T) \x7b\n\tif g(v.(a.T)) \x7b\n\t\th()\n\t\x7d\n\t_ = v.(w.U)\n\t_ = v.(w.V)\n\x7d\n"

/-- The search climbs out of the statement and stops at the first of the two types. -/
example : (Source.parse? laterAssertions.toList).map (fun source =>
    (typeComparison? laterAssertions.toList source.code "w").map TypeComparison.line) =
      some (some 6) := by
  decide +kernel

end PinnedImports.Go
