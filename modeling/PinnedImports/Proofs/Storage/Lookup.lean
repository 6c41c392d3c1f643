import Mathlib.Data.List.Basic
import PinnedImports.Proofs.Dictionary
import PinnedImports.Storage.Replace

/-!
# Following a path into a directory

A path of a directory and the path of a file in it are followed along the same links
(`Node.follow_append`), so the file is found in the directory that the listing shows. What a lookup
sees of an entry is its face: whether it is a file, a directory or a link, and to where. Two trees
with the same faces have the same places (`SameFaces.locate_eq`).
-/

set_option autoImplicit false

namespace PinnedImports.Storage

/-! ## The components of a path -/

theorem pieces_eq_singleton {cs : List Char} (h : '/' ∉ cs) : components.pieces cs = [cs] := by
  induction cs with
  | nil => rfl
  | cons c cs ih =>
    rw [List.mem_cons, not_or] at h
    rw [components.pieces, if_neg (Ne.symm h.1), ih h.2]

theorem pieces_ne_nil (cs : List Char) : components.pieces cs ≠ [] := by
  cases cs with
  | nil => simp [components.pieces]
  | cons c cs =>
    rw [components.pieces]
    split
    · simp
    · split <;> simp

theorem pieces_append_slash (a b : List Char) :
    components.pieces (a ++ '/' :: b) = components.pieces a ++ components.pieces b := by
  induction a with
  | nil => simp [components.pieces]
  | cons c a ih =>
    rw [List.cons_append, components.pieces, components.pieces, ih]
    split
    · rfl
    · cases hpieces : components.pieces a with
      | nil => exact absurd hpieces (pieces_ne_nil a)
      | cons piece others => rfl

/-- The names among the pieces of a path. -/
def names (path : List Char) : List String :=
  ((components.pieces path).filter (!·.isEmpty)).map String.ofList

theorem names_append_slash (a b : List Char) : names (a ++ '/' :: b) = names a ++ names b := by
  rw [names, pieces_append_slash, List.filter_append, List.map_append]
  rfl

theorem names_of_name {name : String} (hne : name ≠ "") (h : '/' ∉ name.toList) :
    names name.toList = [name] := by
  have hnil : name.toList.isEmpty = false := by
    rw [List.isEmpty_eq_false_iff]
    intro hnil
    apply hne
    rw [← String.toList_inj, hnil]
    rfl
  simp [names, pieces_eq_singleton h, hnil, String.ofList_toList]

theorem components_eq_names {path : List Char} (h : path.getLast? ≠ some '/') :
    components path = names path := if_neg h

theorem components_eq_names_dot {path : List Char} (h : path.getLast? = some '/') :
    components path = names path ++ ["."] := if_pos h

theorem isAbsolute_of_no_slash {name : String} (h : '/' ∉ name.toList) : isAbsolute name = false := by
  rw [isAbsolute, beq_eq_false_iff_ne]
  exact fun hhead => h (List.mem_of_mem_head? hhead)

/-- The components of a file's path are those of the path of its directory, apart from a lone dot for
a separator at the end, and the name of the file. -/
theorem exists_components_join {dir name : String} (hdir : dir.isEmpty = false) (hne : name ≠ "")
    (hname : '/' ∉ name.toList) :
    ∃ above, (components dir.toList = above ∨ components dir.toList = above ++ ["."]) ∧
      components (join dir name).toList = above ++ [name] := by
  have hlast : ∀ cs : List Char, (cs ++ name.toList).getLast? ≠ some '/' := by
    intro cs hlast
    have hnil : name.toList ≠ [] := by
      intro hnil
      apply hne
      rw [← String.toList_inj, hnil]
      rfl
    rw [List.getLast?_append_of_ne_nil _ hnil] at hlast
    exact hname (List.mem_of_getLast? hlast)
  rw [join, isAbsolute_of_no_slash hname, hdir, Bool.false_or, if_neg Bool.false_ne_true]
  by_cases hend : dir.toList.getLast? = some '/'
  · rw [if_pos (by rw [hend]; rfl), String.toList_append, components_eq_names_dot hend,
      components_eq_names (hlast _)]
    obtain ⟨front, hfront⟩ := List.getLast?_eq_some_iff.1 hend
    have hempty : names ([] : List Char) = [] := by decide
    rw [hfront, names_append_slash, hempty, List.append_nil, List.append_assoc,
      List.singleton_append, names_append_slash, names_of_name hne hname]
    exact ⟨names front, .inr rfl, rfl⟩
  · have hseparator : "/".toList = ['/'] := by decide
    rw [if_neg (by simpa using hend), String.toList_append, String.toList_append, hseparator,
      components_eq_names hend, components_eq_names (hlast _), List.append_assoc,
      List.singleton_append, names_append_slash, names_of_name hne hname]
    exact ⟨names dir.toList, .inl rfl, rfl⟩

/-- Two files in a directory have two paths. -/
theorem join_injective {dir a b : String} (ha : '/' ∉ a.toList) (hb : '/' ∉ b.toList)
    (h : join dir a = join dir b) : a = b := by
  rw [join, join, isAbsolute_of_no_slash ha, isAbsolute_of_no_slash hb] at h
  split at h
  · exact h
  · split at h
    · exact String.append_right_inj dir |>.1 h
    · exact String.append_right_inj (dir ++ "/") |>.1 h

namespace Node

/-! ## Places -/

theorem descend?_append (root : Node) (a b : List String) :
    root.descend? (a ++ b) = (root.descend? a).bind fun node => node.descend? b := by
  induction a generalizing root with
  | nil => rfl
  | cons name a ih =>
    rw [List.cons_append, descend?, descend?]
    cases root.entries.lookup name with
    | none => rfl
    | some child => exact ih child

theorem descend?_singleton (root : Node) (name : String) :
    root.descend? [name] = root.entries.lookup name := by
  rw [descend?]
  cases root.entries.lookup name <;> rfl

/-- The outcome of a search of more components, given that of the first ones. -/
def goOn (root : Node) (final : Bool) (tail : List String) :
    Except OsError Search → Except OsError Search
  | .error e => .error e
  | .ok (.found names) => root.search final names tail
  | .ok (.linked names rest) => .ok (.linked names (rest ++ tail))

/-- A link in front of the last component is followed in any case. -/
theorem search_append (root : Node) (final : Bool) {tail : List String} (htail : tail ≠ [])
    (front names : List String) :
    root.search final names (front ++ tail) =
      root.goOn final tail (root.search true names front) := by
  -- Behind the first components more are left, so a link among them is never the last component.
  induction front generalizing names with
  | nil => rfl
  | cons name rest ih =>
    have hrest : (rest ++ tail).isEmpty = false := by
      rw [List.isEmpty_eq_false_iff]
      simp [htail]
    rw [List.cons_append, search, search]
    cases hnode : root.descend? names with
    | none => rfl
    | some node =>
      cases node with
      | file mode content => rfl
      | link target => rfl
      | directory es =>
        simp only [ih, hrest]
        split
        · rfl
        split
        · rfl
        split
        · rfl
        · simp only [Bool.not_true, Bool.and_false, Bool.false_and, Bool.false_eq_true, if_false]
          split
          · rfl
          · rw [goOn, List.append_assoc]
        · rfl

/-- Where a directory is found, what lies in it is found. -/
theorem follow_append {root : Node} {final : Bool} {tail place target : List String}
    (htail : tail ≠ []) (hsearch : root.search final place tail = .ok (.found target)) :
    ∀ {n : Nat} {names front : List String}, root.follow true n names front = .ok place →
      root.follow final n names (front ++ tail) = .ok target := by
  -- The induction is on the number of links that may be followed.
  intro n
  induction n with
  | zero =>
    intro names front h
    simp [follow] at h
  | succ n ih =>
    intro names front h
    rw [follow] at h ⊢
    rw [search_append root final htail]
    split at h
    · simp at h
    · rename_i found hfound
      rw [Except.ok.injEq] at h
      rw [hfound, goOn, h, hsearch]
    · rename_i names' rest hfound
      rw [hfound, goOn]
      exact ih h

/-- A lone dot behind a path asks for a directory and leads nowhere else. -/
theorem follow_of_follow_dot {root : Node} {final : Bool} {place : List String} :
    ∀ {n : Nat} {names front : List String},
      root.follow final n names (front ++ ["."]) = .ok place →
        root.follow true n names front = .ok place := by
  intro n
  induction n with
  | zero =>
    intro names front h
    simp [follow] at h
  | succ n ih =>
    intro names front h
    rw [follow] at h ⊢
    rw [search_append root final (List.cons_ne_nil _ _)] at h
    cases hfront : root.search true names front with
    | error e =>
      rw [hfront, goOn] at h
      simp at h
    | ok reached =>
      rw [hfront] at h
      cases reached with
      | found found =>
        -- The dot is searched in what has been found, which is therefore a directory.
        rw [goOn, search] at h
        cases hnode : root.descend? found with
        | none =>
          rw [hnode] at h
          simp at h
        | some node =>
          rw [hnode] at h
          cases node with
          | file mode content => simp at h
          | link target => simp at h
          | directory es => simpa [search] using h
      | linked names' rest =>
        rw [goOn] at h
        exact ih h

/-! ## Faces -/

/-- An entry without what it holds. -/
def face : Node → Node
  | file _ _ => file 0 (.text "")
  | link target => link target
  | directory _ => directory []

theorem exists_directory_of_face {found : Option Node}
    (h : found.map face = some (directory [])) : ∃ es, found = some (directory es) := by
  rw [Option.map_eq_some_iff] at h
  obtain ⟨node, rfl, hface⟩ := h
  cases node with
  | file mode content => simp [face] at hface
  | link target => simp [face] at hface
  | directory es => exact ⟨es, rfl⟩

theorem exists_file_of_face {found : Option Node}
    (h : found.map face = some (file 0 (.text ""))) :
    ∃ mode content, found = some (file mode content) := by
  rw [Option.map_eq_some_iff] at h
  obtain ⟨node, rfl, hface⟩ := h
  cases node with
  | file mode content => exact ⟨mode, content, rfl⟩
  | link target => simp [face] at hface
  | directory es => simp [face] at hface

theorem link_of_face {found : Option Node} {target : String}
    (h : found.map face = some (link target)) : found = some (link target) := by
  rw [Option.map_eq_some_iff] at h
  obtain ⟨node, rfl, hface⟩ := h
  cases node with
  | file mode content => simp [face] at hface
  | link target' => exact congrArg some hface
  | directory es => simp [face] at hface

/-! ## Steps of a search -/

/-- What a search does with one component: it ends, or it goes on from some names. It looks at the faces
of a place and of the place below it, and at nothing else. -/
def searchStep (root : Node) (final : Bool) (names : List String) (name : String)
    (rest : List String) : Except OsError Search ⊕ List String :=
  match (root.descend? names).map face with
  | some (directory _) =>
    if name = "." then .inr names
    else if name = ".." then .inr names.dropLast
    else
      match (root.descend? (names ++ [name])).map face with
      | none => .inl (.error .notFound)
      | some (link target) =>
        if rest.isEmpty && !final then .inl (.ok (.found (names ++ [name])))
        else if isAbsolute target then .inl (.error .notFound)
        else .inl (.ok (.linked names (components target.toList ++ rest)))
      | some _ => .inr (names ++ [name])
  | some _ => .inl (.error .notDirectory)
  | none => .inl (.error .notFound)

theorem search_cons (root : Node) (final : Bool) (names : List String) (name : String)
    (rest : List String) :
    root.search final names (name :: rest) =
      match root.searchStep final names name rest with
      | .inl reached => reached
      | .inr names => root.search final names rest := by
  rw [search, searchStep]
  cases hnode : root.descend? names with
  | none => rfl
  | some node =>
    cases node with
    | file mode content => rfl
    | link target => rfl
    | directory es =>
      rw [descend?_append, hnode, Option.bind_some, descend?_singleton]
      simp only [Option.map_some, face, entries]
      split
      · rfl
      split
      · rfl
      cases es.lookup name with
      | none => rfl
      | some child =>
        cases child with
        | file mode content => rfl
        | directory es' => rfl
        | link target =>
          simp only [Option.map_some, face]
          split
          · rfl
          split
          · rfl
          · rfl

/-! ## Links at the end -/

/-- Only where the last component is a link does it matter whether that is followed. -/
theorem searchStep_false (root : Node) (names : List String) (name : String) (rest : List String) :
    root.searchStep false names name rest = root.searchStep true names name rest ∨
      ∃ target, root.descend? (names ++ [name]) = some (link target) ∧
        root.searchStep false names name rest = .inl (.ok (.found (names ++ [name]))) := by
  rw [searchStep, searchStep]
  split
  · split
    · exact .inl rfl
    split
    · exact .inl rfl
    split
    · exact .inl rfl
    · rename_i target hface
      cases rest with
      | nil => exact .inr ⟨target, link_of_face hface, rfl⟩
      | cons further rest => exact .inl rfl
    · exact .inl rfl
  · exact .inl rfl
  · exact .inl rfl

/-- A search that does not follow a link at the end comes to the same end or stops at such a link. -/
theorem search_false (root : Node) (names rest : List String) :
    root.search false names rest = root.search true names rest ∨
      ∃ found target, root.descend? found = some (link target) ∧
        root.search false names rest = .ok (.found found) := by
  induction rest generalizing names with
  | nil => exact .inl rfl
  | cons name rest ih =>
    rw [search_cons, search_cons]
    rcases root.searchStep_false names name rest with hsame | ⟨target, hlink, hfound⟩
    · rw [hsame]
      cases root.searchStep true names name rest with
      | inl reached => exact .inl rfl
      | inr names' => exact ih names'
    · rw [hfound]
      exact .inr ⟨names ++ [name], target, hlink, rfl⟩

/-- What holds of a search holds of a whole lookup. -/
theorem follow_false (root : Node) (n : Nat) (names rest : List String) :
    root.follow false n names rest = root.follow true n names rest ∨
      ∃ found target, root.descend? found = some (link target) ∧
        root.follow false n names rest = .ok found := by
  induction n generalizing names rest with
  | zero => exact .inl rfl
  | succ n ih =>
    rw [follow, follow]
    rcases root.search_false names rest with hsame | ⟨found, target, hlink, hfound⟩
    · rw [hsame]
      rcases root.search true names rest with e | found | ⟨names', rest'⟩
      · exact .inl rfl
      · exact .inl rfl
      · exact ih names' rest'
    · rw [hfound]
      exact .inr ⟨found, target, hlink, rfl⟩

/-! ## Trees with the same faces -/

/-- Two trees have the same files, links and directories, whatever the files hold. -/
def SameFaces (a b : Node) : Prop :=
  ∀ names, (a.descend? names).map face = (b.descend? names).map face

variable {a b c : Node}

theorem SameFaces.trans (h : SameFaces a b) (h' : SameFaces b c) : SameFaces a c :=
  fun names => (h names).trans (h' names)

theorem SameFaces.search_eq (h : SameFaces a b) (final : Bool) (rest names : List String) :
    a.search final names rest = b.search final names rest := by
  induction rest generalizing names with
  | nil => rfl
  | cons name rest ih =>
    -- One step looks at two faces, and they are the same in both trees.
    have hstep : a.searchStep final names name rest = b.searchStep final names name rest := by
      rw [searchStep, searchStep, h names, h (names ++ [name])]
    rw [search_cons, search_cons, hstep]
    simp only [ih]

theorem SameFaces.follow_eq (h : SameFaces a b) (final : Bool) (n : Nat) :
    ∀ names rest, a.follow final n names rest = b.follow final n names rest := by
  induction n with
  | zero => exact fun _ _ => rfl
  | succ n ih =>
    intro names rest
    rw [follow, follow, h.search_eq]
    simp only [ih]

/-- **Trees with the same faces have the same places.** -/
theorem SameFaces.locate_eq (h : SameFaces a b) (final : Bool) (path : String) :
    a.locate final path = b.locate final path := by
  rw [locate, locate, h.follow_eq]

end Node

end PinnedImports.Storage
