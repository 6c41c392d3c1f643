import PinnedImports.Patterns
import PinnedImports.Proofs.Repository
import PinnedImports.Proofs.Storage.Walk

/-!
# The packages below a directory

A pattern `dir/...` stands for a directory and everything below it. In a tree whose directories are
in order it names exactly the directories that hold a source file and on whose way from the start
the filter leaves nothing out, each once and in the order of their places
(`Patterns.packageDirs_below`). Links below the start are not followed. A link at the start is, but
it is no directory itself: what it leads to is then not named, even if it holds source files.
-/

set_option autoImplicit false

namespace PinnedImports.Patterns

open Storage Storage.Node

/-! ## Patterns for all that lies below -/

/-- The patterns for a directory and everything below it. -/
inductive Recursive : String → String → Prop where
  | here : Recursive "..." "."
  | top : Recursive "/..." "/"
  | below {dir : String} (hdir : dir ≠ "") : Recursive (dir ++ "/...") dir

theorem recursiveRoot?_iff {pattern dir : String} :
    recursiveRoot? pattern = some dir ↔ Recursive pattern dir := by
  rw [recursiveRoot?]
  constructor
  · intro h
    split at h
    · rename_i heq
      rw [Option.some.injEq] at h
      rw [heq, ← h]
      exact .here
    · obtain ⟨front, hfront, hdir⟩ := Option.map_eq_some_iff.1 h
      have hpattern : pattern = String.ofList front ++ "/..." := by
        rw [← String.toList_inj, String.toList_append, String.toList_ofList]
        exact Text.before?_eq_some.1 hfront
      split at hdir
      · rename_i hempty
        rw [List.isEmpty_iff.1 hempty, String.ofList_nil, String.empty_append] at hpattern
        rw [hpattern, ← hdir]
        exact .top
      · rename_i hnonempty
        rw [hpattern, ← hdir]
        refine .below fun hempty => hnonempty ?_
        rw [← String.toList_inj, String.toList_ofList] at hempty
        rw [hempty]
        rfl
  · rintro (_ | _ | hdir)
    · rfl
    · decide
    · have hlonger : dir ++ "/..." ≠ "..." := by
        intro heq
        have hlength := congrArg (fun pattern : String => pattern.toList.length) heq
        simp at hlength
      rw [if_neg hlonger, String.toList_append, Text.before?_eq_some.2 rfl, Option.map_some,
        if_neg, String.ofList_toList]
      rw [List.isEmpty_iff, String.toList_eq_nil_iff]
      exact hdir

/-! ## Directories with source files -/

/-- Whether an entry is a directory that holds a source file of the build. -/
def holdsSource : Node → Bool
  | directory es => es.any fun entry => entry.2.isFile && Package.isSourceName entry.1
  | _ => false

theorem isSome_source? (dir : String) (entry : String × Node) :
    (Package.source? dir entry).isSome = (entry.2.isFile && Package.isSourceName entry.1) := by
  obtain ⟨name, node⟩ := entry
  cases node with
  | file mode content =>
    rw [Package.source?]
    cases Package.isSourceName name <;> rfl
  | link target => rfl
  | directory es => rfl

/-- Source files are found in a directory that is listed if it holds one. -/
theorem exists_discover {root : Node} {path : String} {es : List (String × Node)}
    (hlist : root.list path = .ok es) : ∃ found, Package.discover root path = .ok found ∧
      found.isEmpty = !holdsSource (directory es) := by
  rw [Package.discover, Package.sources_eq, hlist]
  refine ⟨_, rfl, ?_⟩
  rw [List.isEmpty_map, holdsSource, List.not_any_eq_all_not, Bool.eq_iff_iff, List.isEmpty_iff,
    List.filterMap_eq_nil_iff, List.all_eq_true]
  refine forall₂_congr fun entry _ => ?_
  rw [← isSome_source? path entry, Bool.not_eq_true', Option.isSome_eq_false_iff,
    Option.isNone_iff_eq_none]

/-- Of entries that can be listed under their paths, the packages are the directories with source
files. -/
theorem packagesAmong_eq {root : Node} {found : List (String × Node)}
    (hlist : ∀ path es, (path, directory es) ∈ found → root.list path = .ok es) :
    packagesAmong root found = .ok ((found.filter fun entry => holdsSource entry.2).map (·.1)) := by
  induction found with
  | nil => rfl
  | cons entry rest ih =>
    obtain ⟨path, node⟩ := entry
    have hrest := ih fun path es hmem => hlist path es (List.mem_cons_of_mem _ hmem)
    rw [packagesAmong, hrest]
    cases node with
    | file mode content => rfl
    | link target => rfl
    | directory es =>
      obtain ⟨names, hnames, hempty⟩ := exists_discover (hlist path es List.mem_cons_self)
      rw [hnames, List.filter_cons]
      simp only [isDirectory, if_true, hempty]
      cases holdsSource (directory es) <;> rfl

/-! ## Below a directory -/

section Start

variable {root : Node} {dir : String} {es : List (String × Node)}

/-- What a walk lists below a directory can be listed under its path. -/
theorem list_of_visit (horderly : root.OrderlyTree) (hdir : root.stat dir = .ok (directory es))
    {names : List String} {below : List (String × Node)}
    (hbelow : (directory es).descend? names = some (directory below)) :
    root.list (joinAll dir names) = .ok below := by
  obtain ⟨place, hplace, hes⟩ := entryAt_eq_ok.1 hdir
  have hdescend : root.descend? (place ++ names) = some (directory below) := by
    rw [descend?_append, hes, Option.bind_some, hbelow]
  exact list_of_place (locate_joinAll horderly hplace hdescend) hdescend

/-- The packages below a directory are the visited directories that hold source files. -/
theorem below_eq (horderly : root.OrderlyTree) (hdir : root.stat dir = .ok (directory es))
    (filter : Filter) : ∃ start, root.lstat dir = .ok start ∧
      (start = directory es ∨ ∃ target, start = link target) ∧ below root filter dir =
        .ok (((visitsFrom (fun name path => !filter.excludes name path) dir start es).filter
          fun visit => holdsSource visit.2).map fun visit => joinAll dir visit.1) := by
  obtain ⟨start, hlstat, hkind, hwalk⟩ :=
    walkFrom_eq_visits hdir fun name path => !filter.excludes name path
  refine ⟨start, hlstat, hkind, ?_⟩
  have htop : (directory es).OrderlyTree := by
    obtain ⟨place, -, hes⟩ := entryAt_eq_ok.1 hdir
    exact horderly.below hes
  rw [below, hwalk]
  simp only
  rw [packagesAmong_eq, List.filter_map, List.map_map]
  · rfl
  · intro path below hmem
    obtain ⟨⟨names, found⟩, hvisit, heq⟩ := List.mem_map.1 hmem
    rw [Prod.mk.injEq] at heq
    obtain ⟨rfl, rfl⟩ := heq
    apply list_of_visit horderly hdir
    rcases (mem_visitsFrom htop).1 hvisit with ⟨rfl, hfound⟩ | ⟨-, -, hdescend⟩
    · -- The start is listed as a directory only if it is the directory behind the path.
      rcases hkind with rfl | ⟨target, rfl⟩
      · rw [hfound, descend?]
      · cases hfound
    · exact hdescend

/-- Below anything else there is no package. -/
theorem below_of_not_directory {node : Node} (h : root.stat dir = .ok node)
    (hnode : node.isDirectory = false) (filter : Filter) : below root filter dir = .ok [] := by
  obtain ⟨start, -, hstart, hkind⟩ := startEntries_of_ok h
  have hentries : node.entries = [] := by
    cases node with
    | file mode content => rfl
    | link target => rfl
    | directory es => simp [isDirectory] at hnode
  have hnone : start.isDirectory = false := by
    rcases hkind with rfl | ⟨target, rfl⟩
    · exact hnode
    · rfl
  rw [below, walkFrom, hstart, hentries]
  simp [Except.map, walkEntries, packagesAmong, hnone]

theorem below_of_error {e : OsError} (h : root.stat dir = .error e) (filter : Filter) :
    below root filter dir = .error ⟨dir, e⟩ := by
  rw [below, walkFrom, startEntries_of_error h]
  rfl

/-- A directory at a place below another one that holds a source file, and on whose way nothing is
left out by its name or its path. -/
structure IsPackage (filter : Filter) (dir : String) (top : Node) (names : List String) : Prop where
  holds : ∃ es, top.descend? names = some (directory es) ∧
    ∃ entry ∈ es, entry.2.isFile = true ∧ Package.isSourceName entry.1 = true
  admitted : ∀ above name rest, names = above ++ name :: rest →
    filter.excludes name (joinAll dir (above ++ [name])) = false

theorem isPackage_iff {filter : Filter} {top : Node} {names : List String} :
    IsPackage filter dir top names ↔
      (∃ node, top.descend? names = some node ∧ holdsSource node = true) ∧
        Admits (fun name path => !filter.excludes name path) dir names := by
  have hadmits : Admits (fun name path => !filter.excludes name path) dir names ↔
      ∀ above name rest, names = above ++ name :: rest →
        filter.excludes name (joinAll dir (above ++ [name])) = false := by
    simp only [Admits, Bool.not_eq_true']
  rw [hadmits]
  constructor
  · rintro ⟨⟨es, hes, entry, hentry, hfile, hname⟩, hadmitted⟩
    refine ⟨⟨directory es, hes, ?_⟩, hadmitted⟩
    rw [holdsSource, List.any_eq_true]
    exact ⟨entry, hentry, by rw [hfile, hname, Bool.and_self]⟩
  · rintro ⟨⟨node, hnode, hholds⟩, hadmitted⟩
    refine ⟨?_, hadmitted⟩
    cases node with
    | file mode content => simp [holdsSource] at hholds
    | link target => simp [holdsSource] at hholds
    | directory es =>
      rw [holdsSource, List.any_eq_true] at hholds
      obtain ⟨entry, hentry, hsource⟩ := hholds
      rw [Bool.and_eq_true] at hsource
      exact ⟨es, hnode, entry, hentry, hsource.1, hsource.2⟩

/-- The directories with source files that a walk from a directory visits stand at the places of
packages. The start is visited as its path shows it, so a link at its end is none. -/
theorem exists_visit_iff {start : Node} (htop : (directory es).OrderlyTree)
    (hlstat : root.lstat dir = .ok start)
    (hkind : start = directory es ∨ ∃ target, start = link target) (filter : Filter)
    (names : List String) :
    (∃ node, (names, node) ∈ visitsFrom (fun name path => !filter.excludes name path) dir start es ∧
        holdsSource node = true) ↔
      IsPackage filter dir (directory es) names ∧
        (names = [] → ¬ ∃ target, root.lstat dir = .ok (link target)) := by
  rw [isPackage_iff]
  simp only [mem_visitsFrom htop]
  rw [hlstat]
  by_cases hnames : names = []
  · subst hnames
    rcases hkind with rfl | ⟨target, rfl⟩
    · simp [admits_nil, descend?]
    · simp [holdsSource]
  · simp only [hnames, false_and, false_or, false_implies, and_true]
    constructor
    · rintro ⟨node, ⟨-, hadmits, hnode⟩, hholds⟩
      exact ⟨⟨node, hnode, hholds⟩, hadmits⟩
    · rintro ⟨⟨node, hnode, hholds⟩, hadmits⟩
      exact ⟨node, ⟨hnames, hadmits, hnode⟩, hholds⟩

/-- **A recursive pattern names the packages below its directory.** In a tree whose directories are
in order, such a pattern for a directory goes well without a notice, whatever the filter. It names
the directories at and below it that hold a source file and on whose way from there nothing is left
out, each once, under the path that leads to it. They come in the order of their places, in which a
directory stands before what lies below it and siblings stand by name. Only the directory itself is
missing where its path ends in a link. -/
theorem packageDirs_below (horderly : root.OrderlyTree) {pattern : String}
    (hpattern : Recursive pattern dir) (hdir : root.stat dir = .ok (directory es)) (filter : Filter)
    (workspace : Workspace) :
    ∃ places : List (List String),
      packageDirs root filter workspace [pattern] = (.ok (places.map (joinAll dir)), []) ∧
      (places.map (joinAll dir)).Nodup ∧ places.Pairwise (· < ·) ∧
      ∀ names, names ∈ places ↔ IsPackage filter dir (directory es) names ∧
        (names = [] → ¬ ∃ target, root.lstat dir = .ok (link target)) := by
  obtain ⟨place, hplace, hes⟩ := entryAt_eq_ok.1 hdir
  have htop : (directory es).OrderlyTree := horderly.below hes
  obtain ⟨start, hlstat, hkind, hbelow⟩ := below_eq horderly hdir filter
  have hvisit := exists_visit_iff htop hlstat hkind filter
  generalize hfound : (visitsFrom (fun name path => !filter.excludes name path) dir start es).filter
    (fun visit => holdsSource visit.2) = found at hbelow
  have hsorted : (found.map (·.1)).Pairwise (· < ·) := by
    rw [List.pairwise_map, ← hfound]
    exact (pairwise_visitsFrom start htop).filter _
  have hmem : ∀ names, names ∈ found.map (·.1) ↔ IsPackage filter dir (directory es) names ∧
      (names = [] → ¬ ∃ target, root.lstat dir = .ok (link target)) := by
    intro names
    rw [← hvisit names, ← hfound, List.mem_map]
    simp only [List.mem_filter, Prod.exists, exists_and_right, exists_eq_right]
  refine ⟨found.map (·.1), ?_, ?_, hsorted, hmem⟩
  · have hrun : expand root filter workspace pattern =
        .ok ((found.map (·.1)).map (joinAll dir), []) := by
      rw [expand, recursiveRoot?_iff.2 hpattern]
      simp only [hbelow, List.map_map]
      rfl
    rw [packageDirs, List.isEmpty_cons, if_neg Bool.false_ne_true, expandAll, hrun]
    simp [expandAll, Except.map]
  · -- Different places have different paths, since names hold no separator.
    have hnames : ∀ names ∈ found.map (·.1), ∀ name ∈ names, IsName name := by
      intro names hnames
      obtain ⟨⟨⟨below, hdescend, -⟩, -⟩, -⟩ := (hmem names).1 hnames
      exact htop.isName_of_descend? hdescend
    refine List.Nodup.map_on (fun a ha b hb heq => ?_) (hsorted.imp fun {a b} hlt heq => ?_)
    · exact joinAll_injective (locate_eq_ok.1 hplace).1 (hnames a ha) (hnames b hb) heq
    · rw [heq] at hlt
      exact List.lt_irrefl _ hlt

end Start

/-! ## A link at the start -/

/-- A regular file with nothing in it. -/
def emptyFile : Node := .file 0o644 (.text "")

/-- A directory with a source file and two more of them below, one of which holds test data, and a
link to it. -/
def linkedDirectory : Node :=
  ((((directory []).put emptyFile ["src", "a.go"]).put emptyFile ["src", "sub", "b.go"]).put
    emptyFile ["src", "testdata", "t.go"]).put (link "src") ["link"]

theorem orderlyTree_linkedDirectory : linkedDirectory.OrderlyTree := by
  have hname : ∀ name ∈ ["src", "a.go", "sub", "b.go", "testdata", "t.go", "link"],
      IsName name := by
    intro name hname
    have hcheck : ∀ name ∈ ["src", "a.go", "sub", "b.go", "testdata", "t.go", "link"],
        name ≠ "" ∧ name ≠ "." ∧ name ≠ ".." ∧ '/' ∉ name.toList := by
      decide
    obtain ⟨hnonempty, hdot, hup, hslash⟩ := hcheck name hname
    exact ⟨hnonempty, hdot, hup, hslash⟩
  have hfile : emptyFile.OrderlyTree := orderlyTree_of_entries rfl
  have hlink : (link "src").OrderlyTree := orderlyTree_of_entries rfl
  have hempty : (directory []).OrderlyTree := orderlyTree_of_entries rfl
  refine (((hempty.put hfile ?_).put hfile ?_).put hfile ?_).put hlink ?_
  all_goals
    intro name hmem
    apply hname
    revert name
    decide

/-- What stands behind the link. -/
def linkedEntries : List (String × Node) :=
  [("a.go", emptyFile), ("sub", directory [("b.go", emptyFile)]),
    ("testdata", directory [("t.go", emptyFile)])]

/-- Under the path of the link only the package below the directory is named, although the directory
itself is a package just as well. Its test data is left out. -/
theorem linked_start_left_out :
    ∃ places : List (List String),
      packageDirs linkedDirectory ⟨[], true⟩ ⟨[]⟩ ["link/..."] =
        (.ok (places.map (joinAll "link")), []) ∧
      IsPackage ⟨[], true⟩ "link" (directory linkedEntries) [] ∧ [] ∉ places ∧
      ["sub"] ∈ places ∧ ["testdata"] ∉ places := by
  have hpattern : Recursive "link/..." "link" := recursiveRoot?_iff.1 (by decide)
  obtain ⟨places, hrun, -, -, hplaces⟩ := packageDirs_below orderlyTree_linkedDirectory hpattern
    (show linkedDirectory.stat "link" = .ok (directory linkedEntries) from rfl) ⟨[], true⟩ ⟨[]⟩
  refine ⟨places, hrun, ?_, ?_, ?_, ?_⟩
  · exact isPackage_iff.2 ⟨⟨_, rfl, by decide⟩, admits_nil _⟩
  · intro hstart
    exact ((hplaces []).1 hstart).2 rfl ⟨"src", rfl⟩
  · have hsub : IsPackage ⟨[], true⟩ "link" (directory linkedEntries) ["sub"] :=
      isPackage_iff.2 ⟨⟨_, rfl, by decide⟩, admits_cons.2 ⟨by decide, admits_nil _⟩⟩
    exact (hplaces ["sub"]).2 ⟨hsub, fun h => absurd h (List.cons_ne_nil _ _)⟩
  · intro htest
    have hadmitted := ((hplaces ["testdata"]).1 htest).1.admitted [] "testdata" [] rfl
    exact absurd hadmitted (by decide)

end PinnedImports.Patterns
