import PinnedImports.Proofs.Storage.Listing

/-!
# A tree with one file more

A tree to which a file has been added under a new name in a directory (`Node.Adds`) shows the same
everywhere else. Each path leads to the same place as before, unless it led nowhere
(`Node.Adds.locate_reaches`). So the same paths name directories, each directory lists the same
entries but for the new file (`Node.Adds.list_grown`), and a file of the same directory is replaced in
the same way (`Node.Adds.replaceText`).
-/

set_option autoImplicit false

namespace PinnedImports.Storage.Node

/-! ## Putting two entries -/

theorem putEntry_comm {a b : String} (h : a ≠ b) (x y : Node) (es : List (String × Node)) :
    putEntry a x (putEntry b y es) = putEntry b y (putEntry a x es) := by
  simp only [putEntry_eq]
  exact Dictionary.insertEntry_comm h x y es

/-- Entries of one directory may be put in either order. -/
theorem put_comm {a b : String} (h : a ≠ b) (x y root : Node) (place : List String) :
    (root.put x (place ++ [a])).put y (place ++ [b]) =
      (root.put y (place ++ [b])).put x (place ++ [a]) := by
  induction place generalizing root with
  | nil =>
    simp only [List.nil_append, put, entries]
    rw [putEntry_comm h]
  | cons first place ih =>
    simp only [List.cons_append, put, entries, lookup_putEntry, if_true, Option.getD_some,
      putEntry_self, ih]

/-! ## Adding a file -/

/-- How the entries of a directory change when a file is added to the tree: it is among them, or below
one of them, or neither. -/
inductive Grown (name : String) (f : Node) :
    List (String × Node) → List (String × Node) → Prop
  | same (es : List (String × Node)) : Grown name f es es
  | added {es : List (String × Node)} (h : es.lookup name = none) :
      Grown name f es (putEntry name f es)
  | below {es below : List (String × Node)} {key : String} (below' : List (String × Node))
      (h : es.lookup key = some (directory below)) :
      Grown name f es (putEntry key (directory below') es)

/-- The tree `b` is the tree `a` with one file more, under a new name in the directory at a place. -/
structure Adds (place : List String) (name : String) (f a b : Node) : Prop where
  regular : f.isFile = true
  above : ∃ es, a.descend? place = some (directory es)
  absent : a.descend? (place ++ [name]) = none
  put_eq : b = a.put f (place ++ [name])

/-- An entry, and of a directory only that it is one. -/
def bare : Node → Node
  | directory _ => directory []
  | node => node

theorem face_bare (node : Node) : node.bare.face = node.face := by
  cases node <;> rfl

theorem entries_of_descend? {node : Node} {place : List String} {es : List (String × Node)}
    (h : node.descend? place = some (directory es)) : ∃ es', node = directory es' := by
  cases node with
  | directory es' => exact ⟨es', rfl⟩
  | file mode content => cases place <;> simp [descend?, entries] at h
  | link target => cases place <;> simp [descend?, entries] at h

theorem exists_put_eq_directory (root node : Node) (place : List String) (name : String) :
    ∃ es, root.put node (place ++ [name]) = directory es := by
  cases place <;> exact ⟨_, rfl⟩

/-- Each directory is still there, with its entries. -/
theorem grown_put {name : String} (f : Node) :
    ∀ {root : Node} {place : List String}, (∃ es, root.descend? place = some (directory es)) →
      root.descend? (place ++ [name]) = none → ∀ {names : List String} {es : List (String × Node)},
        root.descend? names = some (directory es) → ∃ es',
          (root.put f (place ++ [name])).descend? names = some (directory es') ∧
            Grown name f es es' := by
  -- The place is gone down name by name; beside the way nothing changes.
  intro root place
  induction place generalizing root with
  | nil =>
    rintro - habsent names es hes
    rw [List.nil_append, descend?_singleton] at habsent
    cases names with
    | nil =>
      rw [descend?, Option.some.injEq] at hes
      subst hes
      exact ⟨_, rfl, .added habsent⟩
    | cons other rest =>
      rw [List.nil_append, descend?_put_cons, if_neg]
      · exact ⟨es, hes, .same es⟩
      · -- Below the new name there has been no directory.
        rintro rfl
        rw [descend?, habsent] at hes
        simp at hes
  | cons first place ih =>
    rintro ⟨above, hdirectory⟩ habsent names es hes
    rw [descend?] at hdirectory
    rw [List.cons_append, descend?] at habsent
    cases hlookup : root.entries.lookup first with
    | none =>
      rw [hlookup] at hdirectory
      simp at hdirectory
    | some child =>
      rw [hlookup] at hdirectory habsent
      simp only at hdirectory habsent
      obtain ⟨below, rfl⟩ := entries_of_descend? hdirectory
      obtain ⟨below', hbelow⟩ := exists_put_eq_directory (directory below) f place name
      cases names with
      | nil =>
        -- The root lists the directory through which the place lies.
        rw [descend?, Option.some.injEq] at hes
        subst hes
        refine ⟨putEntry first (directory below') es, ?_, .below below' hlookup⟩
        rw [List.cons_append, put, hlookup, Option.getD_some, hbelow]
        rfl
      | cons other rest =>
        rw [List.cons_append, descend?_put_cons]
        split
        · rename_i heq
          rw [heq, descend?, hlookup] at hes
          rw [hlookup, Option.getD_some]
          exact ih ⟨above, hdirectory⟩ habsent hes
        · exact ⟨es, hes, .same es⟩

/-- Nothing lies below an entry that is no directory. -/
theorem descend?_of_leaf {entry : Node} (h : entry.isDirectory = false) (name : String)
    (rest : List String) : entry.descend? (name :: rest) = none := by
  cases entry with
  | file mode content => rfl
  | link target => rfl
  | directory es => simp [isDirectory] at h

/-- What has an entry is a directory. -/
theorem exists_entries {root child : Node} {name : String}
    (h : root.entries.lookup name = some child) : ∃ es, root = directory es := by
  cases root with
  | file mode content => simp [entries] at h
  | link target => simp [entries] at h
  | directory es => exact ⟨es, rfl⟩

/-- **An entry that is no directory changes nothing but its place**, if that is in a directory and nothing
has been below it. -/
theorem bare_put_of_vacant {entry : Node} (hentry : entry.isDirectory = false) {root : Node}
    {place : List String}
    (habove : place = [] ∨ ∃ es, root.descend? place.dropLast = some (directory es))
    (hbelow : ∀ name rest, root.descend? (place ++ name :: rest) = none) {names : List String}
    (hne : names ≠ place) :
    ((root.put entry place).descend? names).map bare = (root.descend? names).map bare := by
  -- The place is gone down name by name; beside the way nothing changes.
  induction place generalizing root names with
  | nil =>
    obtain ⟨name, rest, rfl⟩ := List.exists_cons_of_ne_nil hne
    rw [put, descend?_of_leaf hentry]
    exact congrArg (Option.map bare) (hbelow name rest).symm
  | cons first place ih =>
    obtain ⟨es, hdirectory⟩ := habove.resolve_left (List.cons_ne_nil _ _)
    obtain ⟨es', rfl⟩ := entries_of_descend? hdirectory
    cases names with
    | nil => rfl
    | cons other rest =>
      rw [descend?_put_cons]
      split
      · rename_i heq
        subst heq
        have hrest : rest ≠ place := by
          rintro rfl
          exact hne rfl
        cases hlookup : (directory es').entries.lookup other with
        | none =>
          -- Only the last name of the place may be new, and nothing stands below it.
          cases place with
          | nil =>
            obtain ⟨name, rest, rfl⟩ := List.exists_cons_of_ne_nil hrest
            rw [put, descend?_of_leaf hentry]
            exact congrArg (Option.map bare) (hbelow name rest).symm
          | cons second place =>
            rw [List.dropLast_cons_cons, descend?, hlookup] at hdirectory
            simp at hdirectory
        | some child =>
          rw [Option.getD_some, descend?, hlookup]
          apply ih _ _ hrest
          · cases place with
            | nil => exact .inl rfl
            | cons second place =>
              rw [List.dropLast_cons_cons, descend?, hlookup] at hdirectory
              exact .inr ⟨es, hdirectory⟩
          · intro name further
            have hnone := hbelow name further
            rw [List.cons_append, descend?, hlookup] at hnone
            exact hnone
      · rfl

/-- Every other place shows the same entry. -/
theorem bare_put {name : String} {f : Node} (hf : f.isFile = true) {root : Node}
    {place : List String} (hdirectory : ∃ es, root.descend? place = some (directory es))
    (habsent : root.descend? (place ++ [name]) = none) {names : List String}
    (hne : names ≠ place ++ [name]) :
    ((root.put f (place ++ [name])).descend? names).map bare =
      (root.descend? names).map bare := by
  have hleaf : f.isDirectory = false := by
    cases f with
    | file mode content => rfl
    | link target => rfl
    | directory es => simp [isFile] at hf
  apply bare_put_of_vacant hleaf _ _ hne
  · right
    rw [List.dropLast_concat]
    exact hdirectory
  · intro first rest
    rw [descend?_append, habsent, Option.bind_none]

/-! ## What the trees show -/

namespace Adds

variable {place : List String} {name : String} {f a b : Node}

theorem descend?_added (h : Adds place name f a b) : b.descend? (place ++ [name]) = some f := by
  obtain ⟨es, hdirectory⟩ := h.above
  rw [h.put_eq, descend?_append, descend?_put f hdirectory, Option.bind_some, descend?_singleton,
    entries, lookup_putEntry, if_pos rfl]

/-- **Every other place shows the same entry**, a file with its bits and its content. -/
theorem bare_eq (h : Adds place name f a b) {names : List String} (hne : names ≠ place ++ [name]) :
    (b.descend? names).map bare = (a.descend? names).map bare := by
  rw [h.put_eq]
  exact bare_put h.regular h.above h.absent hne

theorem face_eq (h : Adds place name f a b) {names : List String} (hne : names ≠ place ++ [name]) :
    (b.descend? names).map face = (a.descend? names).map face := by
  have hface : face ∘ bare = face := funext face_bare
  rw [← hface, ← Option.map_map, ← Option.map_map, h.bare_eq hne]

theorem grown (h : Adds place name f a b) {names : List String} {es : List (String × Node)}
    (hes : a.descend? names = some (.directory es)) :
    ∃ es', b.descend? names = some (.directory es') ∧ Grown name f es es' := by
  rw [h.put_eq]
  exact grown_put f h.above h.absent hes

end Adds

/-! ## Lookups -/

/-- A lookup in the larger tree comes to the same end, or it comes to the new file or to nothing behind
it where the other one found nothing. -/
inductive Reaches {α : Type} (added : α) : Except OsError α → Except OsError α → Prop
  | same (reached : Except OsError α) : Reaches added reached reached
  | added : Reaches added (.error .notFound) (.ok added)
  | behind : Reaches added (.error .notFound) (.error .notDirectory)

namespace Adds

variable {place : List String} {name : String} {f a b : Node}

/-- Behind a file nothing is found. -/
theorem search_file {root : Node} {names : List String}
    (h : (root.descend? names).map face = some (file 0 (.text ""))) (final : Bool)
    (component : String) (rest : List String) :
    root.search final names (component :: rest) = .error .notDirectory := by
  rw [search_cons, searchStep, h]

theorem search_reaches (h : Adds place name f a b) (final : Bool) (rest names : List String) :
    Reaches (.found (place ++ [name])) (a.search final names rest)
      (b.search final names rest) := by
  have hadded : (b.descend? (place ++ [name])).map face = some (file 0 (.text "")) := by
    rw [h.descend?_added, Option.map_some, face_of_isFile h.regular]
  induction rest generalizing names with
  | nil => exact .same _
  | cons component rest ih =>
    -- The two searches stand at the new file, or step to it, or do the same step.
    by_cases hnames : names = place ++ [name]
    · subst hnames
      rw [search_file hadded, search_cons, searchStep, h.absent]
      exact .behind
    have hself := h.face_eq hnames
    by_cases hchild : names ++ [component] = place ++ [name]
    · obtain ⟨rfl, hcomponent⟩ := List.append_inj' hchild rfl
      obtain rfl : component = name := List.head_eq_of_cons_eq hcomponent
      obtain ⟨es, hdirectory⟩ := h.above
      rw [search_cons, search_cons, searchStep, searchStep, hself, hdirectory, Option.map_some, face]
      simp only
      by_cases hdot : component = "."
      · rw [if_pos hdot, if_pos hdot]
        exact ih names
      by_cases hup : component = ".."
      · rw [if_neg hdot, if_pos hup, if_neg hdot, if_pos hup]
        exact ih names.dropLast
      · -- This is the search of the new file, and it ends here unless something is asked for behind it.
        rw [if_neg hdot, if_neg hup, if_neg hdot, if_neg hup, h.absent, hadded]
        cases rest with
        | nil => exact .added
        | cons further rest =>
          simp only [Option.map_none, search_file hadded]
          exact .behind
    · have hstep : a.searchStep final names component rest =
          b.searchStep final names component rest := by
        rw [searchStep, searchStep, hself, h.face_eq hchild]
      rw [search_cons, search_cons, hstep]
      cases b.searchStep final names component rest with
      | inl reached => exact .same reached
      | inr names' => exact ih names'

theorem follow_reaches (h : Adds place name f a b) (final : Bool) (n : Nat)
    (names rest : List String) :
    Reaches (place ++ [name]) (a.follow final n names rest) (b.follow final n names rest) := by
  induction n generalizing names rest with
  | zero => exact .same _
  | succ n ih =>
    rw [follow, follow]
    have hsearch := h.search_reaches final rest names
    generalize a.search final names rest = before at hsearch ⊢
    generalize b.search final names rest = behind at hsearch ⊢
    cases hsearch with
    | same =>
      rcases before with e | found | linked
      · exact .same _
      · exact .same _
      · exact ih _ _
    | added => exact .added
    | behind => exact .behind

/-- **A path leads to the same place, or it has led nowhere.** -/
theorem locate_reaches (h : Adds place name f a b) (final : Bool) (path : String) :
    Reaches (place ++ [name]) (a.locate final path) (b.locate final path) := by
  rw [locate, locate]
  split
  · exact .same _
  · exact h.follow_reaches final _ [] _

theorem locate_eq_ok (h : Adds place name f a b) {final : Bool} {path : String}
    {found : List String} (hfound : a.locate final path = .ok found) :
    b.locate final path = .ok found := by
  -- The larger tree only finds more, never another place.
  have hreaches := h.locate_reaches final path
  rw [hfound] at hreaches
  generalize b.locate final path = behind at hreaches ⊢
  cases hreaches
  rfl

/-- A directory in the larger tree has been one before. -/
theorem exists_above (h : Adds place name f a b) {names : List String}
    {es' : List (String × Node)} (hes' : b.descend? names = some (.directory es')) :
    ∃ es, a.descend? names = some (.directory es) := by
  -- The new file is no directory, so the directory stands elsewhere, where nothing has changed.
  have hne : names ≠ place ++ [name] := by
    rintro rfl
    rw [h.descend?_added, Option.some.injEq] at hes'
    have hregular := h.regular
    rw [hes'] at hregular
    simp [isFile] at hregular
  apply exists_directory_of_face
  rw [← h.face_eq hne, hes']
  rfl

/-- **The same paths name directories.** -/
theorem hasDirectory_eq (h : Adds place name f a b) (path : String) :
    b.hasDirectory path = a.hasDirectory path := by
  rw [Bool.eq_iff_iff, hasDirectory_iff, hasDirectory_iff]
  constructor
  · rintro ⟨found, es', hfound, hes'⟩
    obtain ⟨es, hes⟩ := h.exists_above hes'
    refine ⟨found, es, ?_, hes⟩
    -- The path leads to a directory, so it does not lead to the new file.
    have hreaches := h.locate_reaches true path
    rw [hfound] at hreaches
    generalize a.locate true path = before at hreaches ⊢
    cases hreaches with
    | same => rfl
    | added =>
      rw [h.absent] at hes
      simp at hes
  · rintro ⟨found, es, hfound, hes⟩
    obtain ⟨es', hes', -⟩ := h.grown hes
    exact ⟨found, es', h.locate_eq_ok hfound, hes'⟩

/-- **A directory lists the same entries, but for the new file.** -/
theorem list_grown (h : Adds place name f a b) {path : String} (hpath : a.hasDirectory path = true) :
    ∃ es es', a.list path = .ok es ∧ b.list path = .ok es' ∧ Grown name f es es' := by
  obtain ⟨found, es, hfound, hes⟩ := hasDirectory_iff.1 hpath
  obtain ⟨es', hes', hgrown⟩ := h.grown hes
  exact ⟨es, es', list_of_place hfound hes, list_of_place (h.locate_eq_ok hfound) hes', hgrown⟩

/-- A file beside the new one is exchanged in both trees. -/
theorem put_beside (h : Adds place name f a b) {other : String} {old node : Node}
    (hold : a.descend? (place ++ [other]) = some old) (hfile : old.isFile = true)
    (hnode : node.isFile = true) :
    Adds place name f (a.put node (place ++ [other])) (b.put node (place ++ [other])) := by
  have hne : other ≠ name := by
    rintro rfl
    rw [h.absent] at hold
    simp at hold
  have hfaces : SameFaces a (a.put node (place ++ [other])) := sameFaces_put hnode hold hfile
  -- The new name stays absent because faces do not change, and the two files may be put in any order.
  refine ⟨h.regular, ?_, ?_, ?_⟩
  · obtain ⟨es, hdirectory⟩ := h.above
    exact ⟨_, descend?_put node hdirectory⟩
  · have habsent := hfaces (place ++ [name])
    rw [h.absent, Option.map_none, eq_comm, Option.map_eq_none_iff] at habsent
    exact habsent
  · rw [h.put_eq, put_comm hne]

/-- The new file for a replacement goes to the same place. -/
theorem aim_eq (h : Adds place name f a b) {dir other : String} {mode : Nat} {content : Content}
    (hplace : a.locate true dir = .ok place) (hother : IsName other)
    (hfile : a.descend? (place ++ [other]) = some (file mode content)) (refuses : Refusals) :
    b.aim refuses (join dir other) = a.aim refuses (join dir other) ∧
      a.renameTarget (join dir other) = .ok (place ++ [other]) := by
  have hne : other ≠ name := by
    rintro rfl
    rw [h.absent] at hfile
    simp at hfile
  obtain ⟨es, hdirectory⟩ := h.above
  have hlookup : es.lookup other = some (file mode content) := by
    rw [descend?_append, hdirectory, Option.bind_some, descend?_singleton] at hfile
    exact hfile
  have hplace' := h.locate_eq_ok hplace
  have hdirectory' : b.descend? place = some (.directory (putEntry name f es)) := by
    rw [h.put_eq]
    exact descend?_put f hdirectory
  have hlookup' : (putEntry name f es).lookup other = some (file mode content) := by
    rw [lookup_putEntry, if_neg hne, hlookup]
  have hstat := stat_join hplace hdirectory hother hlookup
  have htarget := renameTarget_join hplace hdirectory hother hlookup
  refine ⟨?_, htarget⟩
  unfold aim persistPlace
  rw [hstat, stat_join hplace' hdirectory' hother hlookup', h.hasDirectory_eq, htarget,
    renameTarget_join hplace' hdirectory' hother hlookup']

/-- **A file beside the new one is replaced in the same way.** -/
theorem replaceText (h : Adds place name f a b) {dir other : String} {mode : Nat}
    {content : Content} (hplace : a.locate true dir = .ok place) (hother : IsName other)
    (hfile : a.descend? (place ++ [other]) = some (file mode content)) (text : String)
    (refuses : Refusals) :
    (∃ e, a.replaceText (join dir other) text refuses = .error e ∧
      b.replaceText (join dir other) text refuses = .error e) ∨
    ∃ a' b', a.replaceText (join dir other) text refuses = .ok a' ∧
      b.replaceText (join dir other) text refuses = .ok b' ∧ SameFaces a a' ∧
      Adds place name f a' b' := by
  obtain ⟨haim, htarget⟩ := h.aim_eq hplace hother hfile refuses
  rw [replaceText_eq, replaceText_eq, haim]
  cases hfound : a.aim refuses (join dir other) with
  | error e => exact .inl ⟨e, rfl, rfl⟩
  | ok aimed =>
    obtain ⟨found, target⟩ := aimed
    obtain ⟨-, -, -, -, -, hplace'⟩ := aim_eq_ok.1 hfound
    rw [htarget, Except.ok.injEq] at hplace'
    subst hplace'
    exact .inr ⟨_, _, rfl, rfl, sameFaces_put rfl hfile rfl, h.put_beside hfile rfl rfl⟩

end Adds

end PinnedImports.Storage.Node
