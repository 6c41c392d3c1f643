import PinnedImports.Proofs.Storage.Addition

/-!
# Walking a tree of files

A walk lists entries with their paths. `Node.visits` lists the same entries with their places below
the start instead, the names that lead there. In a tree whose directories are in order
(`Node.OrderlyTree`) these are exactly the places on whose way nothing is left out
(`Node.mem_visits`), strictly increasing, so that each comes once, behind the directories above it
and between its siblings by name (`Node.pairwise_visits`). The path of each directory that is listed
leads to its place (`Node.locate_joinAll`).
-/

set_option autoImplicit false

namespace PinnedImports.Storage

/-- The path that leads on from a path along some names. -/
def joinAll (path : String) (names : List String) : String := names.foldl join path

@[simp] theorem joinAll_nil (path : String) : joinAll path [] = path := rfl

@[simp] theorem joinAll_cons (path name : String) (rest : List String) :
    joinAll path (name :: rest) = joinAll (join path name) rest := rfl

namespace Node

/-! ## Trees in order -/

/-- Every directory of the tree lists its entries by name, and each name can be a component of a
path. -/
structure OrderlyTree (root : Node) : Prop where
  sorted : ∀ (place : List String) (es : List (String × Node)),
    root.descend? place = some (directory es) → es.Pairwise fun a b => a.1 < b.1
  isName : ∀ (place : List String) (es : List (String × Node)),
    root.descend? place = some (directory es) → ∀ entry ∈ es, IsName entry.1

theorem OrderlyTree.below {root node : Node} {place : List String} (h : root.OrderlyTree)
    (hnode : root.descend? place = some node) : node.OrderlyTree := by
  have hdescend : ∀ names, node.descend? names = root.descend? (place ++ names) := fun names => by
    rw [descend?_append, hnode, Option.bind_some]
  exact ⟨fun _ _ hes => h.sorted _ _ (hdescend _ ▸ hes),
    fun _ _ hes => h.isName _ _ (hdescend _ ▸ hes)⟩

/-- In a directory of the tree the entry under a name is the only one of that name. -/
theorem OrderlyTree.lookup_iff {es : List (String × Node)} (h : (directory es).OrderlyTree)
    {name : String} {node : Node} : es.lookup name = some node ↔ (name, node) ∈ es :=
  Iff.symm (Dictionary.mem_entries (d := ⟨es, h.sorted [] es rfl⟩))

theorem OrderlyTree.entry {es : List (String × Node)} (h : (directory es).OrderlyTree)
    {entry : String × Node} (hentry : entry ∈ es) : entry.2.OrderlyTree := by
  have hdescend : (directory es).descend? [entry.1] = some entry.2 := by
    rw [descend?_singleton]
    exact h.lookup_iff.2 hentry
  exact h.below hdescend

/-- The names on the way to a place can be components of a path. -/
theorem OrderlyTree.isName_of_descend? {root node : Node} (h : root.OrderlyTree)
    {names : List String} (hnode : root.descend? names = some node) :
    ∀ name ∈ names, IsName name := by
  induction names generalizing root with
  | nil => simp
  | cons first rest ih =>
    rw [descend?] at hnode
    cases hlookup : root.entries.lookup first with
    | none =>
      rw [hlookup] at hnode
      simp at hnode
    | some child =>
      rw [hlookup] at hnode
      obtain ⟨es, rfl⟩ := exists_entries hlookup
      have hmem : (first, child) ∈ es := h.lookup_iff.1 hlookup
      rw [List.forall_mem_cons]
      exact ⟨h.isName [] es rfl _ hmem, ih (h.entry hmem) hnode⟩

/-- An entry without entries of its own is a tree in order. -/
theorem orderlyTree_of_entries {node : Node} (h : node.entries = []) : node.OrderlyTree := by
  have hempty : ∀ place es, node.descend? place = some (directory es) → es = [] := by
    intro place es hes
    cases place with
    | nil =>
      rw [descend?, Option.some.injEq] at hes
      rw [hes] at h
      exact h
    | cons name rest => simp [descend?, h] at hes
  constructor
  · intro place es hes
    rw [hempty _ _ hes]
    exact .nil
  · intro place es hes
    rw [hempty _ _ hes]
    simp

/-- **Putting an entry under names keeps a tree in order.** -/
theorem OrderlyTree.put {root node : Node} {place : List String} (hroot : root.OrderlyTree)
    (hnode : node.OrderlyTree) (hplace : ∀ name ∈ place, IsName name) :
    (root.put node place).OrderlyTree := by
  induction place generalizing root with
  | nil => exact hnode
  | cons name place ih =>
    rw [List.forall_mem_cons] at hplace
    -- Below the first name there is a tree in order, or an empty directory is made.
    have hchild : ((root.entries.lookup name).getD (directory [])).OrderlyTree := by
      cases hlookup : root.entries.lookup name with
      | none => exact orderlyTree_of_entries rfl
      | some child =>
        have hdescend : root.descend? [name] = some child := by
          rw [descend?_singleton, hlookup]
        exact hroot.below hdescend
    have hbelow := ih hchild hplace.2
    have hentries : root.entries.Pairwise (fun a b => a.1 < b.1) ∧
        ∀ entry ∈ root.entries, IsName entry.1 := by
      cases root with
      | file mode content => simp [entries]
      | link target => simp [entries]
      | directory es => exact ⟨hroot.sorted [] es rfl, hroot.isName [] es rfl⟩
    have hdirectory : ∀ {es : List (String × Node)},
        (root.put node (name :: place)).descend? [] = some (directory es) →
          es = Dictionary.insertEntry name
            (((root.entries.lookup name).getD (directory [])).put node place) root.entries := by
      intro es hes
      rw [Node.put, descend?, Option.some.injEq, directory.injEq] at hes
      rw [← hes, putEntry_eq]
    constructor
    · intro names es hes
      cases names with
      | nil =>
        rw [hdirectory hes]
        exact Dictionary.pairwise_insertEntry _ _ _ hentries.1
      | cons other rest =>
        rw [descend?_put_cons] at hes
        split at hes
        · exact hbelow.sorted _ _ hes
        · exact hroot.sorted _ _ hes
    · intro names es hes
      cases names with
      | nil =>
        intro entry hentry
        rw [hdirectory hes] at hentry
        rcases Dictionary.mem_insertEntry hentry with rfl | hentry
        · exact hplace.1
        · exact hentries.2 entry hentry
      | cons other rest =>
        rw [descend?_put_cons] at hes
        split at hes
        · exact hbelow.isName _ _ hes
        · exact hroot.isName _ _ hes

/-! ## The places of a walk -/

mutual

/-- The places of the entries that a walk lists, with the entries. -/
def visits (keep : String → String → Bool) (path : String) : Node → List (List String × Node)
  | directory es => ([], directory es) :: visitsEntries keep path es
  | node => [([], node)]

/-- The places of the admitted entries of a directory and of everything below them. -/
def visitsEntries (keep : String → String → Bool) (path : String) :
    List (String × Node) → List (List String × Node)
  | [] => []
  | (name, node) :: rest =>
    (if keep name (join path name) then
      (visits keep (join path name) node).map fun visit => (name :: visit.1, visit.2)
    else []) ++ visitsEntries keep path rest

end

variable (keep : String → String → Bool)

mutual

/-- A walk lists what it visits, under the paths of the places. -/
theorem walk_eq_visits (path : String) : ∀ node : Node,
    walk keep path node = (visits keep path node).map fun visit => (joinAll path visit.1, visit.2)
  | file _ _ => rfl
  | link _ => rfl
  | directory es => by
    rw [walk, visits, List.map_cons, walkEntries_eq_visits path es]
    rfl

theorem walkEntries_eq_visits (path : String) : ∀ es : List (String × Node),
    walkEntries keep path es =
      (visitsEntries keep path es).map fun visit => (joinAll path visit.1, visit.2)
  | [] => rfl
  | (name, node) :: rest => by
    rw [walkEntries, visitsEntries, List.map_append, walkEntries_eq_visits path rest]
    split
    · rw [walk_eq_visits (join path name) node, List.map_map]
      rfl
    · rfl

end

variable {keep}

theorem mem_visitsEntries {path : String} {es : List (String × Node)} {names : List String}
    {found : Node} : (names, found) ∈ visitsEntries keep path es ↔
      ∃ name rest child, names = name :: rest ∧ (name, child) ∈ es ∧
        keep name (join path name) = true ∧ (rest, found) ∈ visits keep (join path name) child := by
  induction es with
  | nil => simp [visitsEntries]
  | cons entry es ih =>
    obtain ⟨name, node⟩ := entry
    rw [visitsEntries, List.mem_append, ih]
    constructor
    · rintro (h | ⟨other, rest, child, rfl, hchild, hkeep, hfound⟩)
      · split at h
        · rename_i hkeep
          obtain ⟨⟨rest, _⟩, hfound, heq⟩ := List.mem_map.1 h
          rw [Prod.mk.injEq] at heq
          obtain ⟨rfl, rfl⟩ := heq
          exact ⟨name, rest, node, rfl, List.mem_cons_self, hkeep, hfound⟩
        · simp at h
      · exact ⟨other, rest, child, rfl, List.mem_cons_of_mem _ hchild, hkeep, hfound⟩
    · rintro ⟨other, rest, child, rfl, hchild, hkeep, hfound⟩
      rcases List.mem_cons.1 hchild with heq | hchild
      · rw [Prod.mk.injEq] at heq
        obtain ⟨rfl, rfl⟩ := heq
        left
        rw [if_pos hkeep]
        exact List.mem_map.2 ⟨(rest, found), hfound, rfl⟩
      · exact .inr ⟨other, rest, child, rfl, hchild, hkeep, hfound⟩

/-- Nothing on the way to a place is left out: neither what stands there nor a directory above it,
the start apart. -/
def Admits (keep : String → String → Bool) (path : String) (names : List String) : Prop :=
  ∀ above name rest, names = above ++ name :: rest →
    keep name (joinAll path (above ++ [name])) = true

theorem admits_nil (path : String) : Admits keep path [] := by
  intro above name rest h
  simp at h

theorem admits_cons {path name : String} {rest : List String} :
    Admits keep path (name :: rest) ↔
      keep name (join path name) = true ∧ Admits keep (join path name) rest := by
  constructor
  · intro h
    refine ⟨h [] name rest rfl, fun above other more hmore => ?_⟩
    exact h (name :: above) other more (by rw [hmore, List.cons_append])
  · rintro ⟨hname, hrest⟩ above other more hmore
    cases above with
    | nil =>
      rw [List.nil_append, List.cons.injEq] at hmore
      rw [← hmore.1]
      exact hname
    | cons first above =>
      rw [List.cons_append, List.cons.injEq] at hmore
      rw [← hmore.1]
      exact hrest above other more hmore.2

/-- **A walk visits the places on whose way nothing is left out**, each with what stands there. -/
theorem mem_visits {path : String} {node : Node} (h : node.OrderlyTree) {names : List String}
    {found : Node} : (names, found) ∈ visits keep path node ↔
      Admits keep path names ∧ node.descend? names = some found := by
  -- Along the names, since the walk goes from each directory on to the entry under the next name.
  induction names generalizing node path with
  | nil =>
    have hself : ∀ visit ∈ visits keep path node, visit.1 = [] → visit = ([], node) := by
      intro visit hvisit hnil
      cases node with
      | file mode content => exact List.mem_singleton.1 hvisit
      | link target => exact List.mem_singleton.1 hvisit
      | directory es =>
        rw [visits, List.mem_cons] at hvisit
        refine hvisit.resolve_right fun hvisit => ?_
        obtain ⟨name, rest, -, hcons, -⟩ := mem_visitsEntries.1 hvisit
        rw [hcons] at hnil
        exact List.cons_ne_nil _ _ hnil
    have hfirst : ([], node) ∈ visits keep path node := by
      cases node <;> exact List.mem_cons_self
    rw [descend?, Option.some.injEq]
    constructor
    · intro hvisit
      have heq := hself _ hvisit rfl
      rw [Prod.mk.injEq] at heq
      exact ⟨admits_nil path, heq.2.symm⟩
    · rintro ⟨-, rfl⟩
      exact hfirst
  | cons name rest ih =>
    rw [admits_cons]
    cases node with
    | file mode content => simp [visits, descend?, entries]
    | link target => simp [visits, descend?, entries]
    | directory es =>
      rw [visits, List.mem_cons, mem_visitsEntries, descend?, entries]
      constructor
      · rintro (heq | ⟨_, _, child, heq, hchild, hkeep, hfound⟩)
        · simp at heq
        · rw [List.cons.injEq] at heq
          obtain ⟨rfl, rfl⟩ := heq
          obtain ⟨hadmits, hdescend⟩ := (ih (h.entry hchild)).1 hfound
          rw [h.lookup_iff.2 hchild]
          exact ⟨⟨hkeep, hadmits⟩, hdescend⟩
      · rintro ⟨⟨hkeep, hadmits⟩, hdescend⟩
        cases hlookup : es.lookup name with
        | none =>
          rw [hlookup] at hdescend
          simp at hdescend
        | some child =>
          rw [hlookup] at hdescend
          have hchild := h.lookup_iff.1 hlookup
          exact .inr ⟨name, rest, child, rfl, hchild, hkeep,
            (ih (h.entry hchild)).2 ⟨hadmits, hdescend⟩⟩

mutual

/-- **A walk visits places in increasing order**: a directory before what lies below it, and
siblings by name. -/
theorem pairwise_visits (path : String) : ∀ node : Node, node.OrderlyTree →
    (visits keep path node).Pairwise fun a b => a.1 < b.1
  | file _ _, _ => List.pairwise_singleton _ _
  | link _, _ => List.pairwise_singleton _ _
  | directory es, h => by
    rw [visits, List.pairwise_cons]
    constructor
    · rintro ⟨names, found⟩ hvisit
      obtain ⟨name, rest, -, rfl, -⟩ := mem_visitsEntries.1 hvisit
      exact List.nil_lt_cons name rest
    · exact pairwise_visitsEntries path es (h.sorted [] es rfl) fun _ => h.entry

theorem pairwise_visitsEntries (path : String) : ∀ es : List (String × Node),
    es.Pairwise (fun a b => a.1 < b.1) → (∀ entry ∈ es, entry.2.OrderlyTree) →
      (visitsEntries keep path es).Pairwise fun a b => a.1 < b.1
  | [], _, _ => .nil
  | (name, node) :: rest, hsorted, horderly => by
    rw [List.pairwise_cons] at hsorted
    rw [List.forall_mem_cons] at horderly
    rw [visitsEntries, List.pairwise_append]
    refine ⟨?_, pairwise_visitsEntries path rest hsorted.2 horderly.2, ?_⟩
    · split
      · rw [List.pairwise_map]
        refine (pairwise_visits (join path name) node horderly.1).imp fun {a b} hlt => ?_
        exact List.cons_lt_cons_iff.2 (.inr ⟨rfl, hlt⟩)
      · exact .nil
    · -- Places below two entries differ in their first names, which are those of the entries.
      rintro ⟨names, found⟩ hvisit ⟨names', found'⟩ hvisit'
      obtain ⟨other, more, child, rfl, hchild, -⟩ := mem_visitsEntries.1 hvisit'
      split at hvisit
      · obtain ⟨visit, -, heq⟩ := List.mem_map.1 hvisit
        rw [Prod.mk.injEq] at heq
        rw [← heq.1]
        exact List.cons_lt_cons_iff.2 (.inl (hsorted.1 _ hchild))
      · simp at hvisit

end

/-! ## Walks from a path -/

/-- What a walk from a path visits: the entry of the path itself, and what lies below the directory
behind it. -/
def visitsFrom (keep : String → String → Bool) (path : String) (start : Node)
    (es : List (String × Node)) : List (List String × Node) :=
  ([], start) :: visitsEntries keep path es

/-- A walk that starts behind a link shows the link, and then what lies below its target. -/
theorem walkFrom_eq_visits {root : Node} {path : String} {es : List (String × Node)}
    (h : root.stat path = .ok (directory es)) (keep : String → String → Bool) :
    ∃ start, root.lstat path = .ok start ∧
      (start = directory es ∨ ∃ target, start = link target) ∧
      root.walkFrom keep path = .ok ((visitsFrom keep path start es).map
        fun visit => (joinAll path visit.1, visit.2)) := by
  obtain ⟨start, hlstat, hstart, hkind⟩ := startEntries_of_ok h
  refine ⟨start, hlstat, hkind, ?_⟩
  rw [walkFrom, hstart, visitsFrom, List.map_cons, ← walkEntries_eq_visits]
  rfl

theorem mem_visitsFrom {path : String} {start : Node} {es : List (String × Node)}
    (h : (directory es).OrderlyTree) {names : List String} {found : Node} :
    (names, found) ∈ visitsFrom keep path start es ↔ (names = [] ∧ found = start) ∨
      (names ≠ [] ∧ Admits keep path names ∧ (directory es).descend? names = some found) := by
  rw [visitsFrom, List.mem_cons, Prod.mk.injEq, ← mem_visits h, visits, List.mem_cons,
    Prod.mk.injEq]
  -- Only the first visit is that of the start.
  have hne : (names, found) ∈ visitsEntries keep path es → names ≠ [] := by
    intro hvisit
    obtain ⟨name, rest, -, rfl, -⟩ := mem_visitsEntries.1 hvisit
    exact List.cons_ne_nil name rest
  constructor
  · rintro (hstart | hvisit)
    · exact .inl hstart
    · exact .inr ⟨hne hvisit, .inr hvisit⟩
  · rintro (hstart | ⟨hnames, hself | hvisit⟩)
    · exact .inl hstart
    · exact absurd hself.1 hnames
    · exact .inr hvisit

theorem pairwise_visitsFrom {path : String} (start : Node) {es : List (String × Node)}
    (h : (directory es).OrderlyTree) :
    (visitsFrom keep path start es).Pairwise fun a b => a.1 < b.1 := by
  have hvisits : (visits keep path (directory es)).Pairwise fun a b => a.1 < b.1 :=
    pairwise_visits path (directory es) h
  rw [visits, List.pairwise_cons] at hvisits
  rw [visitsFrom, List.pairwise_cons]
  exact hvisits

/-! ## The paths of a walk -/

theorem names_join {path name : String} (hpath : path.isEmpty = false) (hname : IsName name) :
    names (join path name).toList = names path.toList ++ [name] := by
  rw [join, isAbsolute_of_no_slash hname.no_slash, hpath, Bool.false_or,
    if_neg Bool.false_ne_true]
  by_cases hend : path.toList.getLast? = some '/'
  · -- A separator at the end of the path is the one in front of the name.
    obtain ⟨front, hfront⟩ := List.getLast?_eq_some_iff.1 hend
    have hempty : names ([] : List Char) = [] := by decide
    rw [if_pos (by rw [hend]; rfl), String.toList_append, hfront, List.append_assoc,
      List.singleton_append, names_append_slash, names_append_slash, hempty, List.append_nil,
      names_of_name hname.nonempty hname.no_slash]
  · have hseparator : "/".toList = ['/'] := by decide
    rw [if_neg (by simpa using hend), String.toList_append, String.toList_append, hseparator,
      List.append_assoc, List.singleton_append, names_append_slash,
      names_of_name hname.nonempty hname.no_slash]

theorem isEmpty_join {path name : String} (hname : IsName name) :
    (join path name).isEmpty = false := by
  rw [← Bool.not_eq_true, String.isEmpty_iff]
  intro hempty
  rw [join] at hempty
  split at hempty
  · exact hname.nonempty hempty
  · split at hempty
    · exact hname.nonempty (String.append_eq_empty_iff.1 hempty).2
    · exact hname.nonempty (String.append_eq_empty_iff.1 hempty).2

theorem names_joinAll {path : String} {below : List String} (hpath : path.isEmpty = false)
    (hbelow : ∀ name ∈ below, IsName name) :
    names (joinAll path below).toList = names path.toList ++ below := by
  induction below generalizing path with
  | nil => simp
  | cons name rest ih =>
    rw [List.forall_mem_cons] at hbelow
    rw [joinAll_cons, ih (isEmpty_join hbelow.1) hbelow.2, names_join hpath hbelow.1,
      List.append_assoc, List.singleton_append]

/-- Two places below a path have two paths. -/
theorem joinAll_injective {path : String} {a b : List String} (hpath : path.isEmpty = false)
    (ha : ∀ name ∈ a, IsName name) (hb : ∀ name ∈ b, IsName name)
    (h : joinAll path a = joinAll path b) : a = b := by
  have hnames := congrArg (fun path : String => names path.toList) h
  simp only [names_joinAll hpath ha, names_joinAll hpath hb] at hnames
  exact List.append_cancel_left hnames

/-- The path of a directory below another one leads to its place, whatever links lead to the upper
one. -/
theorem locate_joinAll {root : Node} (h : root.OrderlyTree) {path : String}
    {place below : List String} {es : List (String × Node)}
    (hplace : root.locate true path = .ok place)
    (hes : root.descend? (place ++ below) = some (directory es)) :
    root.locate true (joinAll path below) = .ok (place ++ below) := by
  induction below generalizing path place with
  | nil => rwa [joinAll_nil, List.append_nil]
  | cons name rest ih =>
    obtain ⟨above, habove, hrest⟩ : ∃ above, root.descend? place = some above ∧
        above.descend? (name :: rest) = some (directory es) := by
      rw [descend?_append] at hes
      exact Option.bind_eq_some_iff.1 hes
    rw [descend?] at hrest
    cases hchild : above.entries.lookup name with
    | none =>
      rw [hchild] at hrest
      simp at hrest
    | some child =>
      rw [hchild] at hrest
      obtain ⟨es', rfl⟩ := exists_entries hchild
      have hname : IsName name :=
        h.isName _ _ habove _ ((h.below habove).lookup_iff.1 hchild)
      -- What leads on to a directory is one itself, and so it is no link.
      obtain ⟨es'', rfl⟩ := entries_of_descend? hrest
      have hnext := locate_join hplace habove hname hchild rfl true
      have hassoc : place ++ name :: rest = place ++ [name] ++ rest := by
        rw [List.append_assoc, List.singleton_append]
      rw [joinAll_cons, hassoc]
      exact ih hnext (hassoc ▸ hes)

end Node

end PinnedImports.Storage
