import PinnedImports.Package
import PinnedImports.Proofs.Storage.Steps

/-!
# A package directory behind a write

A file that is replaced as a whole stands where it stood, with the new text, and nothing else in its
directory changes (`Package.sources_replaceText`). The directory may be reached through links, but the
names of its entries have to be in order and without separators (`Node.Orderly`), as they are in a
file system.
-/

set_option autoImplicit false

namespace PinnedImports

namespace Storage.Node

/-! ## Entries -/

/-- An entry with another node, if it has the name. -/
def exchangeAt (name : String) (node : Node) (entry : String × Node) : String × Node :=
  if entry.1 = name then (entry.1, node) else entry

@[simp] theorem exchangeAt_fst (name : String) (node : Node) (entry : String × Node) :
    (exchangeAt name node entry).1 = entry.1 := by
  rw [exchangeAt]
  split <;> rfl

/-- An entry that is there is exchanged in its place. -/
theorem putEntry_of_mem {name : String} {es : List (String × Node)}
    (hsorted : es.Pairwise fun a b => a.1 < b.1) (hmem : name ∈ es.map (·.1)) (node : Node) :
    putEntry name node es = es.map (exchangeAt name node) := by
  -- Names are in order, so behind the entry there is no other one with its name.
  induction es with
  | nil => simp at hmem
  | cons entry rest ih =>
    obtain ⟨hfirst, hrest⟩ := List.pairwise_cons.1 hsorted
    rw [putEntry, List.map_cons]
    by_cases heq : name = entry.1
    · have hkeep : rest.map (exchangeAt name node) = rest := by
        conv_rhs => rw [← List.map_id rest]
        apply List.map_congr_left
        intro other hother
        have hlt := hfirst other hother
        rw [exchangeAt, if_neg, id]
        intro hsame
        rw [hsame, heq] at hlt
        exact String.lt_irrefl _ hlt
      rw [if_neg (heq ▸ String.lt_irrefl _), if_pos heq, exchangeAt, if_pos heq.symm, hkeep, heq]
    · rw [List.map_cons, List.mem_cons] at hmem
      have hmem' := hmem.resolve_left heq
      obtain ⟨other, hother, hname⟩ := List.mem_map.1 hmem'
      have hlt := hfirst other hother
      rw [hname] at hlt
      rw [if_neg fun hgt => String.lt_irrefl _ (String.lt_trans hlt hgt), if_neg heq,
        exchangeAt, if_neg (Ne.symm heq), ih hrest hmem']

/-! ## Exchanging a file -/

theorem descend?_of_isFile {node : Node} (h : node.isFile = true) (name : String)
    (rest : List String) : node.descend? (name :: rest) = none := by
  cases node with
  | file mode content => rfl
  | link target => simp [isFile] at h
  | directory es => simp [isFile] at h

theorem face_of_isFile {node : Node} (h : node.isFile = true) : node.face = file 0 (.text "") := by
  cases node with
  | file mode content => rfl
  | link target => simp [isFile] at h
  | directory es => simp [isFile] at h

theorem descend?_put_cons (root node : Node) (name : String) (place : List String)
    (other : String) (rest : List String) :
    (root.put node (name :: place)).descend? (other :: rest) =
      if other = name then
        (((root.entries.lookup name).getD (directory [])).put node place).descend? rest
      else root.descend? (other :: rest) := by
  rw [put, descend?, entries, lookup_putEntry]
  by_cases heq : other = name
  · rw [if_pos heq, if_pos heq]
  · rw [if_neg heq, if_neg heq, descend?]

/-- A file in the place of a file leaves all faces as they are. -/
theorem sameFaces_put {node : Node} (hnode : node.isFile = true) :
    ∀ {root : Node} {place : List String} {old : Node}, root.descend? place = some old →
      old.isFile = true → SameFaces root (root.put node place) := by
  -- Only what lies below the first name of the place can change, and the induction goes on there.
  intro root place
  induction place generalizing root with
  | nil =>
    intro old hold hfile names
    rw [descend?, Option.some.injEq] at hold
    subst hold
    cases names with
    | nil =>
      rw [put, descend?, descend?, Option.map_some, Option.map_some, face_of_isFile hnode,
        face_of_isFile hfile]
    | cons name rest => rw [put, descend?_of_isFile hnode, descend?_of_isFile hfile]
  | cons name place ih =>
    intro old hold hfile names
    rw [descend?] at hold
    cases hlookup : root.entries.lookup name with
    | none =>
      rw [hlookup] at hold
      simp at hold
    | some child =>
      rw [hlookup] at hold
      simp only at hold
      cases names with
      | nil =>
        -- The root itself is a directory, since it has an entry, and stays one.
        cases root with
        | file mode content => simp [entries] at hlookup
        | link target => simp [entries] at hlookup
        | directory es => rfl
      | cons other rest =>
        rw [descend?_put_cons]
        split
        · rename_i heq
          rw [heq, descend?, hlookup]
          exact ih hold hfile rest
        · rfl

/-- The directory of an entry that is put shows it in its place. -/
theorem descend?_put {name : String} (node : Node) :
    ∀ {root : Node} {place : List String} {es : List (String × Node)},
      root.descend? place = some (directory es) →
        (root.put node (place ++ [name])).descend? place =
          some (directory (putEntry name node es)) := by
  intro root place
  induction place generalizing root with
  | nil =>
    intro es h
    rw [descend?, Option.some.injEq] at h
    subst h
    rfl
  | cons first place ih =>
    intro es h
    rw [descend?] at h
    cases hlookup : root.entries.lookup first with
    | none =>
      rw [hlookup] at h
      simp at h
    | some child =>
      rw [hlookup] at h
      rw [List.cons_append, descend?_put_cons, if_pos rfl, hlookup, Option.getD_some]
      exact ih h

/-! ## Listing a directory -/

theorem locate_eq_ok {root : Node} {final : Bool} {path : String} {place : List String} :
    root.locate final path = .ok place ↔ path.isEmpty = false ∧ isAbsolute path = false ∧
      root.follow final (maxLinks + 1) [] (components path.toList) = .ok place := by
  rw [locate]
  split
  · rename_i h
    rw [Bool.or_eq_true] at h
    rcases h with h | h <;> simp [h]
  · rename_i h
    rw [Bool.or_eq_true, not_or, Bool.not_eq_true, Bool.not_eq_true] at h
    simp [h.1, h.2]

theorem entryAt_eq_ok {root : Node} {final : Bool} {path : String} {node : Node} :
    root.entryAt final path = .ok node ↔
      ∃ place, root.locate final path = .ok place ∧ root.descend? place = some node := by
  rw [entryAt]
  cases root.locate final path with
  | error e => simp
  | ok place => cases hplace : root.descend? place <;> simp [hplace]

/-- Only where a link stands at the end of a path does it matter whether that is followed. -/
theorem locate_false (root : Node) (path : String) :
    root.locate false path = root.locate true path ∨
      ∃ place target, root.descend? place = some (link target) ∧
        root.locate false path = .ok place := by
  rw [locate, locate]
  split
  · exact .inl rfl
  · exact root.follow_false _ _ _

theorem lstat_eq_stat_or_link (root : Node) (path : String) :
    root.lstat path = root.stat path ∨ ∃ target, root.lstat path = .ok (link target) := by
  rcases root.locate_false path with hsame | ⟨place, target, hlink, hplace⟩
  · left
    rw [lstat, stat, entryAt, entryAt, hsame]
  · exact .inr ⟨target, entryAt_eq_ok.2 ⟨place, hplace, hlink⟩⟩

/-- A walk cannot start where nothing stands behind the path. -/
theorem startEntries_of_error {root : Node} {path : String} {e : OsError}
    (h : root.stat path = .error e) : root.startEntries path = .error ⟨path, e⟩ := by
  rw [startEntries]
  rcases root.lstat_eq_stat_or_link path with hsame | ⟨target, hlink⟩
  · rw [hsame, h]
  · rw [hlink]
    simp only [isLink, if_true, h]

/-- A walk starts in what stands behind the path, and shows a link at its end as a link. -/
theorem startEntries_of_ok {root node : Node} {path : String} (h : root.stat path = .ok node) :
    ∃ start, root.lstat path = .ok start ∧ root.startEntries path = .ok (start, node.entries) ∧
      (start = node ∨ ∃ target, start = link target) := by
  rcases root.lstat_eq_stat_or_link path with hsame | ⟨target, hlink⟩
  · refine ⟨node, hsame.trans h, ?_, .inl rfl⟩
    rw [startEntries, hsame, h]
    exact ite_self _
  · refine ⟨link target, hlink, ?_, .inr ⟨target, rfl⟩⟩
    rw [startEntries, hlink]
    simp only [isLink, if_true, h]

/-- What is listed stands in the directory behind the path. -/
theorem exists_place_of_list {root : Node} {path : String} {es : List (String × Node)}
    (h : root.list path = .ok es) (hne : es ≠ []) :
    ∃ place, root.locate true path = .ok place ∧ root.descend? place = some (directory es) := by
  rw [list] at h
  cases hstat : root.stat path with
  | error e =>
    rw [startEntries_of_error hstat] at h
    simp [Except.map] at h
  | ok node =>
    obtain ⟨start, -, hstart, -⟩ := startEntries_of_ok hstat
    rw [hstart] at h
    simp only [Except.map, Except.ok.injEq] at h
    obtain ⟨place, hplace, hnode⟩ := entryAt_eq_ok.1 hstat
    refine ⟨place, hplace, ?_⟩
    -- What has entries is a directory.
    cases node with
    | file mode content => exact absurd h.symm hne
    | link target => exact absurd h.symm hne
    | directory es' => rw [hnode, ← h, entries]

theorem hasDirectory_iff {root : Node} {path : String} :
    root.hasDirectory path = true ↔ ∃ place es, root.locate true path = .ok place ∧
      root.descend? place = some (directory es) := by
  rw [hasDirectory, stat]
  constructor
  · intro h
    cases hnode : root.entryAt true path with
    | error e =>
      rw [hnode] at h
      simp at h
    | ok node =>
      rw [hnode] at h
      obtain ⟨place, hplace, hdescend⟩ := entryAt_eq_ok.1 hnode
      cases node with
      | file mode content => simp [isDirectory] at h
      | link target => simp [isDirectory] at h
      | directory es => exact ⟨place, es, hplace, hdescend⟩
  · rintro ⟨place, es, hplace, hdescend⟩
    have hnode : root.entryAt true path = .ok (directory es) :=
      entryAt_eq_ok.2 ⟨place, hplace, hdescend⟩
    rw [hnode]
    rfl

/-- The listing of a directory shows the entries at its place. -/
theorem list_of_place {root : Node} {path : String} {place : List String}
    {es : List (String × Node)} (hplace : root.locate true path = .ok place)
    (hnode : root.descend? place = some (directory es)) : root.list path = .ok es := by
  have hstat : root.stat path = .ok (directory es) := entryAt_eq_ok.2 ⟨place, hplace, hnode⟩
  obtain ⟨start, -, hstart, -⟩ := startEntries_of_ok hstat
  rw [list, hstart]
  rfl

/-- Entries are in order, and no name holds a separator. -/
structure OrderlyEntries (es : List (String × Node)) : Prop where
  sorted : es.Pairwise fun a b => a.1 < b.1
  names : ∀ entry ∈ es, '/' ∉ entry.1.toList

theorem OrderlyEntries.exchange {es : List (String × Node)} (h : OrderlyEntries es) (name : String)
    (node : Node) : OrderlyEntries (es.map (exchangeAt name node)) where
  sorted := by
    rw [List.pairwise_map]
    simpa using h.sorted
  names := by
    intro entry hentry
    obtain ⟨other, hother, rfl⟩ := List.mem_map.1 hentry
    rw [exchangeAt_fst]
    exact h.names other hother

/-- In order, an entry is found under its name. -/
theorem OrderlyEntries.lookup_eq {es : List (String × Node)} (h : OrderlyEntries es)
    {entry : String × Node} (hentry : entry ∈ es) : es.lookup entry.1 = some entry.2 :=
  (Dictionary.mem_entries (d := ⟨es, h.sorted⟩)).1 hentry

/-- The entries of a directory are orderly. -/
def Orderly (root : Node) (dir : String) : Prop :=
  ∀ es, root.list dir = .ok es → OrderlyEntries es

/-! ## Replacing a file -/

/-- A name that a path can end in. -/
structure IsName (name : String) : Prop where
  nonempty : name ≠ ""
  not_dot : name ≠ "."
  not_up : name ≠ ".."
  no_slash : '/' ∉ name.toList

theorem join_relative {dir name : String} (hdir : dir.isEmpty = false)
    (hrelative : isAbsolute dir = false) (hname : '/' ∉ name.toList) :
    (join dir name).isEmpty = false ∧ isAbsolute (join dir name) = false := by
  have hprefix : ∃ more, join dir name = dir ++ more := by
    rw [join, isAbsolute_of_no_slash hname, hdir, Bool.or_false, if_neg Bool.false_ne_true]
    split
    · exact ⟨name, rfl⟩
    · exact ⟨"/" ++ name, String.append_assoc⟩
  obtain ⟨more, hmore⟩ := hprefix
  obtain ⟨c, cs, hchars⟩ : ∃ c cs, dir.toList = c :: cs := by
    apply List.exists_cons_of_ne_nil
    intro hnil
    rw [String.toList_eq_nil_iff.1 hnil] at hdir
    exact absurd hdir (by decide)
  rw [isAbsolute, hchars] at hrelative
  rw [hmore, isAbsolute, String.toList_append, hchars]
  refine ⟨?_, hrelative⟩
  rw [← Bool.not_eq_true, String.isEmpty_iff, ← String.toList_eq_nil_iff, String.toList_append,
    hchars]
  exact List.cons_ne_nil _ _

section File

variable {root : Node} {dir name : String} {place : List String} {es : List (String × Node)}
  {mode : Nat} {content : Content}

/-- The path of an entry leads into the directory that its own path leads to, whatever links lead
there, if the entry itself is none. -/
theorem locate_join (hplace : root.locate true dir = .ok place)
    (hdirectory : root.descend? place = some (directory es)) (hname : IsName name) {node : Node}
    (hentry : es.lookup name = some node) (hlink : node.isLink = false) (final : Bool) :
    root.locate final (join dir name) = .ok (place ++ [name]) := by
  obtain ⟨hdir, hrelative, hfollow⟩ := locate_eq_ok.1 hplace
  have hsearch : root.search final place [name] = .ok (.found (place ++ [name])) := by
    rw [search, hdirectory]
    simp only [if_neg hname.not_dot, if_neg hname.not_up, hentry]
    cases node with
    | file mode content => rfl
    | link target => simp [isLink] at hlink
    | directory es' => rfl
  obtain ⟨above, habove, hjoin⟩ := exists_components_join hdir hname.nonempty hname.no_slash
  -- A separator at the end of the directory's path is a lone dot there, but not in the entry's path.
  have hfront : root.follow true (maxLinks + 1) [] above = .ok place := by
    rcases habove with habove | habove
    · rwa [habove] at hfollow
    · rw [habove] at hfollow
      exact follow_of_follow_dot hfollow
  obtain ⟨hne, hstart⟩ := join_relative hdir hrelative hname.no_slash
  rw [locate_eq_ok]
  refine ⟨hne, hstart, ?_⟩
  rw [hjoin]
  exact follow_append (List.cons_ne_nil _ _) hsearch hfront

theorem renameTarget_join (hplace : root.locate true dir = .ok place)
    (hdirectory : root.descend? place = some (directory es)) (hname : IsName name)
    (hfile : es.lookup name = some (file mode content)) :
    root.renameTarget (join dir name) = .ok (place ++ [name]) := by
  obtain ⟨hdir, -, -⟩ := locate_eq_ok.1 hplace
  obtain ⟨above, -, hjoin⟩ := exists_components_join hdir hname.nonempty hname.no_slash
  -- The path ends in the name, which is neither a dot nor two, so a file can be renamed to it.
  have hlast : (components (join dir name).toList).getLast? = some name := by
    rw [hjoin, List.getLast?_append_of_ne_nil _ (List.cons_ne_nil _ _)]
    rfl
  have hslash : (join dir name).toList.getLast? ≠ some '/' := by
    intro hslash
    rw [components_eq_names_dot hslash, List.getLast?_append_of_ne_nil _ (List.cons_ne_nil _ _)]
      at hlast
    exact hname.not_dot (Option.some.inj hlast).symm
  have hchild : root.descend? (place ++ [name]) = some (file mode content) := by
    rw [descend?_append, hdirectory, Option.bind_some, descend?_singleton]
    exact hfile
  have hnot : ¬ (name = "." ∨ name = "..") := not_or.2 ⟨hname.not_dot, hname.not_up⟩
  rw [renameTarget, if_neg hslash, hlast, Option.getD_some, if_neg hnot,
    locate_join hplace hdirectory hname hfile rfl]
  simp only [hchild]

theorem stat_join (hplace : root.locate true dir = .ok place)
    (hdirectory : root.descend? place = some (directory es)) (hname : IsName name)
    (hfile : es.lookup name = some (file mode content)) :
    root.stat (join dir name) = .ok (file mode content) := by
  apply entryAt_eq_ok.2
  refine ⟨place ++ [name], locate_join hplace hdirectory hname hfile rfl true, ?_⟩
  rw [descend?_append, hdirectory, Option.bind_some, descend?_singleton]
  exact hfile

end File

/-- **A file that is replaced is exchanged in the listing of its directory.** -/
theorem list_replaceText {root root' : Node} {dir name text : String}
    {es : List (String × Node)} {mode : Nat} {content : Content} (hlist : root.list dir = .ok es)
    (hname : IsName name) (hfile : es.lookup name = some (file mode content))
    (h : root.replaceText (join dir name) text = .ok root') :
    root'.list dir = .ok (putEntry name (file mode (.text text)) es) := by
  have hnonempty : es ≠ [] := by
    rintro rfl
    simp at hfile
  obtain ⟨place, hplace, hdirectory⟩ := exists_place_of_list hlist hnonempty
  have hchild : root.descend? (place ++ [name]) = some (file mode content) := by
    rw [descend?_append, hdirectory, Option.bind_some, descend?_singleton]
    exact hfile
  obtain ⟨old, target, hstat, -, htarget, rfl⟩ := exists_of_replaceText h
  rw [renameTarget_join hplace hdirectory hname hfile, Except.ok.injEq] at htarget
  rw [stat_join hplace hdirectory hname hfile, Except.ok.injEq] at hstat
  subst htarget hstat
  -- A lookup sees faces only, so the path of the directory leads to the same place.
  have hfaces : SameFaces root (root.put (file mode (.text text)) (place ++ [name])) :=
    sameFaces_put rfl hchild rfl
  exact list_of_place ((hfaces.locate_eq true dir).symm.trans hplace) (descend?_put _ hdirectory)

end Storage.Node

/-! ## The source files of a package -/

namespace Package

open Storage

/-- The names of source files can be components of paths. -/
theorem isName_of_isSourceName {name : String} (h : isSourceName name = true)
    (hslash : '/' ∉ name.toList) : Node.IsName name := by
  refine ⟨?_, ?_, ?_, hslash⟩
  all_goals
    rintro rfl
    revert h
    decide

/-- The source file of an entry. -/
def source? (dir : String) (entry : String × Node) : Option (String × Content) :=
  match entry.2 with
  | .file _ content =>
    if isSourceName entry.1 then some (join dir entry.1, content) else none
  | _ => none

theorem source?_eq_some {dir : String} {entry : String × Node} {source : String × Content} :
    source? dir entry = some source ↔ ∃ mode content, entry.2 = .file mode content ∧
      isSourceName entry.1 = true ∧ source = (join dir entry.1, content) := by
  obtain ⟨name, node⟩ := entry
  cases node with
  | file mode content =>
    simp only [source?, Option.ite_none_right_eq_some, Node.file.injEq, Option.some.injEq]
    constructor
    · rintro ⟨hname, rfl⟩
      exact ⟨mode, content, ⟨rfl, rfl⟩, hname, rfl⟩
    · rintro ⟨_, _, ⟨-, rfl⟩, hname, rfl⟩
      exact ⟨hname, rfl⟩
  | link target => simp [source?]
  | directory es => simp [source?]

theorem sources_eq (root : Node) (dir : String) :
    sources root dir = (root.list dir).map (List.filterMap (source? dir)) := by
  rw [sources]
  congr 1

/-- A source file with another text, if it stands at the path. -/
def withText (path text : String) (found : String × Content) : String × Content :=
  if found.1 = path then (found.1, .text text) else found

/-- Exchanging the file of an entry exchanges the text of its source file. -/
theorem source?_exchangeAt {dir name text : String} {es : List (String × Node)}
    (h : Node.OrderlyEntries es) {mode mode' : Nat} {content : Content}
    (hmem : (name, Node.file mode content) ∈ es) (hname : isSourceName name = true)
    {entry : String × Node} (hentry : entry ∈ es) :
    source? dir (Node.exchangeAt name (.file mode' (.text text)) entry) =
      (source? dir entry).map (withText (join dir name) text) := by
  by_cases heq : entry.1 = name
  · obtain ⟨other, node⟩ := entry
    obtain rfl : other = name := heq
    have hnode : some node = some (Node.file mode content) :=
      (h.lookup_eq hentry).symm.trans (h.lookup_eq hmem)
    rw [Option.some.injEq] at hnode
    subst hnode
    have hsource : ∀ mode content, source? dir (other, .file mode content) =
        some (join dir other, content) :=
      fun mode content => source?_eq_some.2 ⟨mode, content, rfl, hname, rfl⟩
    rw [Node.exchangeAt, if_pos rfl, hsource, hsource, Option.map_some, withText, if_pos rfl]
  · rw [Node.exchangeAt, if_neg heq]
    cases hsource : source? dir entry with
    | none => rfl
    | some source =>
      obtain ⟨_, _, -, -, rfl⟩ := source?_eq_some.1 hsource
      rw [Option.map_some, withText, if_neg]
      intro hjoin
      exact heq (join_injective (h.names entry hentry) (h.names _ hmem) hjoin)

/-- **Behind a write the source files are the same, but for the text of the one that was written.** -/
theorem sources_replaceText {root root' : Node} {dir path text : String}
    {found : List (String × Content)} (horderly : root.Orderly dir)
    (hsources : sources root dir = .ok found) (hpath : path ∈ found.map (·.1))
    (h : root.replaceText path text = .ok root') :
    root'.Orderly dir ∧ sources root' dir = .ok (found.map (withText path text)) := by
  rw [sources_eq] at hsources
  cases hlist : root.list dir with
  | error e =>
    rw [hlist] at hsources
    simp [Except.map] at hsources
  | ok es =>
    rw [hlist] at hsources
    simp only [Except.map, Except.ok.injEq] at hsources
    subst hsources
    have hentries := horderly es hlist
    obtain ⟨source, hsource, rfl⟩ := List.mem_map.1 hpath
    obtain ⟨⟨name, node⟩, hmem, hsource⟩ := List.mem_filterMap.1 hsource
    obtain ⟨mode, content, rfl, hname, rfl⟩ := source?_eq_some.1 hsource
    simp only at h hname
    have hlist' := Node.list_replaceText hlist
      (isName_of_isSourceName hname (hentries.names _ hmem)) (hentries.lookup_eq hmem) h
    rw [Node.putEntry_of_mem hentries.sorted (List.mem_map.2 ⟨_, hmem, rfl⟩)] at hlist'
    constructor
    · intro es' hes'
      rw [hlist', Except.ok.injEq] at hes'
      rw [← hes']
      exact hentries.exchange name _
    · rw [sources_eq, hlist']
      simp only [Except.map, Except.ok.injEq]
      rw [List.filterMap_map, List.map_filterMap]
      exact List.filterMap_congr fun entry hentry => source?_exchangeAt hentries hmem hname hentry

end Package

end PinnedImports
