import PinnedImports.Command.Execution
import PinnedImports.Proofs.Loading
import PinnedImports.Proofs.Pass.Simulation
import PinnedImports.Proofs.Storage.Addition

/-!
# Files outside the build

A file may be left out of its package by its name, by its build constraints, because it is no text
or because it has a syntax error (`Package.LeftOut`). Then the same package is loaded from the
directory with the file and without it (`Package.load_adds`), and imports have the same names,
wherever the file lies (`Workspace.packageName_adds`). So a pass with the file comes out as the pass
without it, changes the same files in the same way and leaves the file as it is
(`Pass.onDirectory_leftOut`).
-/

set_option autoImplicit false

namespace PinnedImports

open Storage

/-! ## Loading a directory with one file more -/

namespace Package

variable {place : List String} {name dir : String} {mode : Nat} {content : Content} {a b : Node}

/-- The source files of a directory with one file more: where it lies there, it is one more source
file at most. -/
theorem sources_adds (h : Node.Adds place name (.file mode content) a b)
    (hdir : a.hasDirectory dir = true) :
    ∃ before behind extra, sources a dir = .ok (before ++ behind) ∧
      sources b dir = .ok (before ++ (extra ++ behind)) ∧
      (extra = [] ∨ extra = (source? dir (name, .file mode content)).toList) := by
  obtain ⟨es, es', hlist, hlist', hgrown⟩ := h.list_grown hdir
  rw [sources_eq, sources_eq, hlist, hlist']
  simp only [Except.map, Except.ok.injEq]
  cases hgrown with
  | same => exact ⟨es.filterMap (source? dir), [], [], by simp, by simp, .inl rfl⟩
  | added habsent =>
    rw [Node.putEntry_eq]
    obtain ⟨before, behind, hbefore, hafter⟩ := Dictionary.exists_filterMap_insertEntry
      (source? dir) name (.file mode content) es fun old hold => by simp [habsent] at hold
    exact ⟨before, behind, _, hbefore, hafter, .inr rfl⟩
  | below below' hbelow =>
    -- A directory is no source file, with whatever lies below it.
    rw [Node.putEntry_eq]
    obtain ⟨before, behind, hbefore, hafter⟩ := Dictionary.exists_filterMap_insertEntry
      (source? dir) _ (.directory below') es fun old hold => by
        rw [hbelow, Option.some.injEq] at hold
        rw [← hold]
        rfl
    exact ⟨before, behind, [], hbefore, hafter, .inl rfl⟩

/-- Why a file is left out of its package. -/
inductive LeftOut (name : String) : Content → Prop
  | name {content : Content} (h : isSourceName name = false) : LeftOut name content
  | constraint {text : String} (h : Build.Platform.host.allowsSource text = false) :
      LeftOut name (.text text)
  | undecodable (data : List UInt8) : LeftOut name (.bytes data)
  | syntaxError {text : String} (h : Go.Source.parse? text.toList = none) :
      LeftOut name (.text text)

/-- **A file is left out just where no source file is read from it.** -/
theorem leftOut_iff (dir : String) (mode : Nat) : LeftOut name content ↔
    (readFiles (source? dir (name, .file mode content)).toList).1 = [] := by
  constructor
  · intro h
    rw [List.eq_nil_iff_forall_not_mem]
    intro file hfile
    -- A file that is read has the name, the text and the constraints that it needs.
    obtain ⟨source, hsource, hread⟩ := mem_readFiles.1 hfile
    obtain ⟨_, _, hnode, hname, rfl⟩ := source?_eq_some.1 (Option.mem_toList.1 hsource)
    obtain ⟨-, rfl⟩ := Node.file.inj hnode
    obtain ⟨rfl, hallows, -, hparse⟩ := readFile_eq_some.1 hread
    cases h with
    | name hno => exact Bool.false_ne_true (hno.symm.trans hname)
    | constraint hno => exact Bool.false_ne_true (hno.symm.trans hallows)
    | syntaxError hno => simp [hno] at hparse
  · intro hnone
    by_cases hname : isSourceName name = true
    · cases content with
      | bytes data => exact .undecodable data
      | text text =>
        by_cases hallows : Build.Platform.host.allowsSource text = true
        · cases hparse : Go.Source.parse? text.toList with
          | none => exact .syntaxError hparse
          | some parsed =>
            have hmem : ⟨join dir name, text, parsed⟩ ∈
                (readFiles (source? dir (name, .file mode (.text text))).toList).1 := by
              apply mem_readFiles.2
              refine ⟨_, Option.mem_toList.2 (source?_eq_some.2 ⟨mode, _, rfl, hname, rfl⟩), ?_⟩
              exact readFile_eq_some.2 ⟨rfl, hallows, rfl, hparse⟩
            simp [hnone] at hmem
        · exact .constraint (Bool.eq_false_iff.2 hallows)
    · exact .name (Bool.eq_false_iff.2 hname)

/-- **The same package is loaded with a file that is left out and without it.** Only the notices may
be different: the operator is told of a file that is no text. -/
theorem load_adds (h : Node.Adds place name (.file mode content) a b) (hleft : LeftOut name content)
    (hdir : a.hasDirectory dir = true) :
    ∃ package? notices notices', load a dir = .ok (package?, notices) ∧
      load b dir = .ok (package?, notices') := by
  obtain ⟨before, behind, extra, hsources, hsources', hextra⟩ := sources_adds h hdir
  -- The file gives no source file or one that is not read, so the files that are read are the same.
  have hnone : (readFiles extra).1 = [] := by
    rcases hextra with rfl | rfl
    · rfl
    · exact (leftOut_iff dir mode).1 hleft
  have hfiles : (readFiles (before ++ (extra ++ behind))).1 = (readFiles (before ++ behind)).1 := by
    rw [readFiles_append, readFiles_append, readFiles_append, hnone, List.nil_append]
  rw [load, load, hsources, hsources']
  simp only [hfiles]
  exact ⟨_, _, _, rfl, rfl⟩

end Package

/-! ## Names and downloads beside the file -/

namespace Workspace

variable {place : List String} {name : String} {mode : Nat} {content : Content} {a b : Node}

theorem directory?_adds (w : Workspace) {f : Node} (h : Node.Adds place name f a b)
    (path : String) : w.directory? b path = w.directory? a path := by
  -- Only whether a path names a directory is asked.
  have hsame : b.hasDirectory = a.hasDirectory := funext h.hasDirectory_eq
  rw [directory?, directory?, hsame]

/-- **A package has the same name with a file that is left out and without it.** -/
theorem packageName_adds (w : Workspace) (h : Node.Adds place name (.file mode content) a b)
    (hleft : Package.LeftOut name content) (path : String) :
    (w.packageName b path).1 = (w.packageName a path).1 := by
  rw [packageName, packageName, w.directory?_adds h]
  cases hfound : w.directory? a path with
  | none => rfl
  | some dir =>
    have hdir : a.hasDirectory dir = true := by
      rw [directory?, Option.ite_none_left_eq_some] at hfound
      exact List.find?_some hfound.2
    obtain ⟨package?, notices, notices', hload, hload'⟩ := Package.load_adds h hleft hdir
    simp only [nameIn, hload, hload']
    cases package? <;> rfl

end Workspace

namespace Pass

open Session

variable {σ : Type}

/-- The collaborators do not look at a file: with it and without it a package has the same name and a
download the same outcome. -/
structure Heedless (place : List String) (name : String) (f : Node) (tools : Collaborators σ) :
    Prop where
  names : ∀ a b, Node.Adds place name f a b → ∀ path world,
    (tools.names b path world).1.1 = (tools.names a path world).1.1 ∧
      (tools.names b path world).2 = (tools.names a path world).2
  downloader : ∀ a b, Node.Adds place name f a b → tools.downloader b = tools.downloader a

/-- Names from the workspace and downloads by the go command do not look at files that are left out. -/
theorem heedless_collaborators (setup : Command.Setup σ) (verbose : Bool) (place : List String)
    {name : String} {content : Content} (hleft : Package.LeftOut name content) (mode : Nat) :
    Heedless place name (.file mode content) (setup.collaborators verbose) where
  names a b h path world := by
    have hname := setup.workspace.packageName_adds h hleft path
    simp only [Command.Setup.collaborators, hname, and_self]
  downloader a b h := by
    funext path world
    simp only [Command.Setup.collaborators, GoCommand.provide, setup.workspace.directory?_adds h]

/-! ## Two passes -/

/-- The session with a file more in its tree. -/
def Session.withFile (f : Node) (place : List String) (s : Session σ) : Session σ :=
  { s with files := s.files.put f place }

/-- Two sessions over a tree without a file and the same tree with it. What has been told may be
different. -/
structure Beside (root : Node) (place : List String) (name : String) (f : Node)
    (s t : Session σ) : Prop where
  faces : Node.SameFaces root s.files
  adds : Node.Adds place name f s.files t.files
  cache : s.cache = t.cache
  world : s.world = t.world

/-- A file that stands at its path in the directory at a place. -/
def StandsIn (root : Node) (place : List String) (dir : String) (file : SourceFile) : Prop :=
  ∃ name mode content, file.path = join dir name ∧ Node.IsName name ∧
    root.descend? (place ++ [name]) = some (.file mode content)

section Beside

variable {root : Node} {place : List String} {name dir : String} {f : Node}
  {tools : Collaborators σ}

theorem Beside.tell {s t : Session σ} (h : Beside root place name f s t)
    (more more' : Transcript) :
    Beside root place name f (Session.tell more s).2 (Session.tell more' t).2 :=
  ⟨h.faces, h.adds, h.cache, h.world⟩

/-- What is told with a name may be different, the name is the same. -/
theorem beside_lookup (htools : Heedless place name f tools) (path : String) :
    Simulates (Beside root place name f) (lookup tools path) (lookup tools path) := by
  intro s t hst
  have hlookup : ∀ u : Session σ, lookup tools path u =
      ((tools.names u.files path u.world).1.1,
        (Session.tell (.ofNotices tools.palette (tools.names u.files path u.world).1.2)
          { u with world := (tools.names u.files path u.world).2 }).2) := fun _ => rfl
  obtain ⟨hanswer, hworld⟩ := htools.names s.files t.files hst.adds path t.world
  rw [hlookup, hlookup, hst.world, hanswer, hworld]
  constructor
  · rfl
  · apply Beside.tell
    exact ⟨hst.faces, hst.adds, hst.cache, rfl⟩

theorem beside_resolve (requests : List Registry.Request) :
    Simulates (Beside root place name f) (resolve tools requests) (resolve tools requests) := by
  intro s t hst
  unfold Session.resolve
  rw [hst.cache, hst.world]
  exact ⟨rfl, hst.faces, hst.adds, rfl, rfl⟩

theorem beside_download (htools : Heedless place name f tools) (path : String) :
    Simulates (Beside root place name f) (download tools path) (download tools path) := by
  intro s t hst
  unfold Session.download
  rw [hst.cache, hst.world, htools.downloader s.files t.files hst.adds]
  exact ⟨rfl, hst.faces, hst.adds, rfl, rfl⟩

theorem beside_refusals (path : String) :
    Simulates (Beside root place name f) (refusals tools path) (refusals tools path) := by
  intro s t hst
  unfold Session.refusals
  rw [hst.world]
  exact ⟨rfl, hst.faces, hst.adds, hst.cache, rfl⟩

theorem beside_ask (prompt : Confirm.Prompt) :
    Simulates (Beside root place name f) (ask tools prompt) (ask tools prompt) := by
  intro s t hst
  unfold Session.ask
  rw [hst.world]
  exact ⟨rfl, hst.faces, hst.adds, hst.cache, rfl⟩

/-- A file of the package is written in both trees or in none. -/
theorem beside_write (hplace : root.locate true dir = .ok place) {file : SourceFile}
    (hfile : StandsIn root place dir file) (subs : Dictionary String) :
    Simulates (Beside root place name f) (write tools file subs) (write tools file subs) := by
  intro s t hst
  obtain ⟨own, mode, content, hpath, hown, hstands⟩ := hfile
  -- The file may have another content by now, but it is still a file.
  obtain ⟨mode', content', hstands'⟩ : ∃ mode content,
      s.files.descend? (place ++ [own]) = some (.file mode content) := by
    apply Node.exists_file_of_face
    rw [← hst.faces, hstands]
    rfl
  rw [hst.faces.locate_eq] at hplace
  have hsame : Simulates (Beside root place name f) (refusals tools (join dir own))
      (refusals tools (join dir own)) := beside_refusals _
  obtain ⟨hrefuses, hasked⟩ := hsame s t hst
  rw [write_eq, write_eq, hpath, ← hrefuses]
  rcases hst.adds.replaceText hplace hown hstands'
      (Imports.render file.text subs file.source.imports) (refusals tools (join dir own) s).1 with
    ⟨e, hfails, hfails'⟩ | ⟨files, files', hwrites, hwrites', hfaces, hadds⟩
  · rw [hfails, hfails']
    exact ⟨rfl, hasked.tell _ _⟩
  · rw [hwrites, hwrites']
    exact ⟨rfl, hst.faces.trans hfaces, hadds, hasked.cache, hasked.world⟩

theorem relatedOn_beside (htools : Heedless place name f tools)
    (hplace : root.locate true dir = .ok place) :
    RelatedOn (StandsIn root place dir) (Beside root place name f) tools tools where
  palette := rfl
  told more _ _ hst := ⟨rfl, hst.tell more more⟩
  lookup := beside_lookup htools
  resolve := beside_resolve
  download := beside_download htools
  ask := beside_ask
  write _ hfile subs := beside_write hplace hfile subs

end Beside

/-- The files of a package stand in its directory. -/
theorem standsIn_of_load {root : Node} {dir : String} {place : List String}
    {es : List (String × Node)} {package : Package} {notices : List Notice}
    (hplace : root.locate true dir = .ok place)
    (hdirectory : root.descend? place = some (.directory es)) (hes : Node.OrderlyEntries es)
    (hload : Package.load root dir = .ok (some package, notices)) {file : SourceFile}
    (hfile : file ∈ package.files) : StandsIn root place dir file := by
  obtain ⟨found, content, hsources, hsource, -, -⟩ := Package.exists_source_of_load hload hfile
  rw [Package.sources_eq, Node.list_of_place hplace hdirectory, Except.map, Except.ok.injEq]
    at hsources
  rw [← hsources] at hsource
  obtain ⟨⟨name, node⟩, hentry, hsource⟩ := List.mem_filterMap.1 hsource
  obtain ⟨mode, content, rfl, hname, heq⟩ := Package.source?_eq_some.1 hsource
  -- Names come once in a directory, so the entry is the one that its name leads to.
  have hlookup := hes.lookup_eq hentry
  refine ⟨name, mode, content, congrArg Prod.fst heq,
    Package.isName_of_isSourceName hname (hes.names _ hentry), ?_⟩
  rw [Node.descend?_append, hdirectory, Option.bind_some, Node.descend?_singleton]
  exact hlookup

/-- **A pass carries sessions over a tree without the file and with it to such sessions, and comes out
the same in both.** -/
theorem beside_onDirectory {tools : Collaborators σ} {place : List String} {name dir : String}
    {mode : Nat} {content : Content} {es : List (String × Node)}
    (htools : Heedless place name (.file mode content) tools)
    (hleft : Package.LeftOut name content) (options : Options) {s t : Session σ}
    (hplace : s.files.locate true dir = .ok place)
    (hdirectory : s.files.descend? place = some (.directory es)) (hes : Node.OrderlyEntries es)
    (hst : Beside s.files place name (.file mode content) s t) :
    (onDirectory tools options dir s).1 = (onDirectory tools options dir t).1 ∧
      Beside s.files place name (.file mode content) (onDirectory tools options dir s).2
        (onDirectory tools options dir t).2 := by
  have hdir : s.files.hasDirectory dir = true :=
    Node.hasDirectory_iff.2 ⟨place, es, hplace, hdirectory⟩
  obtain ⟨package?, notices, notices', hload, hload'⟩ := Package.load_adds hst.adds hleft hdir
  rw [onDirectory_eq, onDirectory_eq, hload, hload']
  cases package? with
  | none => exact ⟨rfl, hst.tell _ _⟩
  | some package =>
    -- The package is the same, so that all of its files stand in both trees.
    apply (relatedOn_beside htools hplace).onPackage options
    · exact fun file hfile => standsIn_of_load hplace hdirectory hes hload hfile
    · exact hst.tell _ _

/-- **A file outside the build does not interfere.** The program's own collaborators do not look at a
file that is left out of its package. And whatever the collaborators are that do not look at it, a
pass over the directory with the file comes out as the pass without it, with the same summary, cache
and state of the world. Behind it the file is as it was, and each other place shows the same entry
with and without it. The names in the directory are in order and hold no separator, as in every file
system. -/
theorem onDirectory_leftOut {name : String} {content : Content}
    (hleft : Package.LeftOut name content) (mode : Nat) (place : List String) :
    (∀ (setup : Command.Setup σ) (verbose : Bool),
      Heedless place name (.file mode content) (setup.collaborators verbose)) ∧
    ∀ tools : Collaborators σ, Heedless place name (.file mode content) tools →
      ∀ (options : Options) (dir : String) (s : Session σ) (es : List (String × Node)),
        s.files.locate true dir = .ok place → s.files.descend? place = some (.directory es) →
        Node.OrderlyEntries es → es.lookup name = none →
        let without := onDirectory tools options dir s
        let together := onDirectory tools options dir
          (s.withFile (.file mode content) (place ++ [name]))
        together.1 = without.1 ∧ together.2.cache = without.2.cache ∧
          together.2.world = without.2.world ∧
          together.2.files.descend? (place ++ [name]) = some (.file mode content) ∧
          ∀ names, names ≠ place ++ [name] →
            (together.2.files.descend? names).map Node.bare =
              (without.2.files.descend? names).map Node.bare := by
  refine ⟨fun setup verbose => heedless_collaborators setup verbose place hleft mode, ?_⟩
  intro tools htools options dir s es hplace hdirectory hes habsent
  have hadds : Node.Adds place name (.file mode content) s.files
      (s.files.put (.file mode content) (place ++ [name])) := by
    refine ⟨rfl, ⟨es, hdirectory⟩, ?_, rfl⟩
    rw [Node.descend?_append, hdirectory, Option.bind_some, Node.descend?_singleton]
    exact habsent
  obtain ⟨houtcome, hafter⟩ := beside_onDirectory htools hleft options hplace hdirectory hes
    (t := s.withFile (.file mode content) (place ++ [name]))
    ⟨fun _ => rfl, hadds, rfl, rfl⟩
  exact ⟨houtcome.symm, hafter.cache.symm, hafter.world.symm, hafter.adds.descend?_added,
    fun names hne => hafter.adds.bare_eq hne⟩

/-- A machine whose registry has one repository and whose go command downloads everything. -/
def mirroring : Command.Machine Unit where
  post _ _ world := (.response 200
    "[\x7b\"path\":\"github.com/a/b\",\"gopkgs_path\":\"gopkgs.com/b\",\"version\":1\x7d]", world)
  go _ world := (.status 0, world)
  terminal _ := none
  withTerminal _ world := world

/-- The collaborators on this machine, with a workspace in `go`. -/
def mirrored : Collaborators Unit :=
  Command.Setup.collaborators ⟨mirroring, Registry.defaultHost, ⟨["go"]⟩, ⟨false⟩⟩ false

/-- The text of a program that generates code. -/
def generator : String := "//go:build ignore\n\npackage main\n\nfunc main() \x7b\x7d\n"

/-- The entries of the directory of a library. -/
def libraryEntries : List (String × Node) :=
  [("lib.go", .file 0o644 (.text "package lib\n\nimport \"github.com/a/b\"\n\nvar V = b.V\n"))]

/-- A workspace with a package that the library imports, and the library beside it. -/
def library : Session Unit where
  files := .directory
    [("go", .directory [("src", .directory [("github.com", .directory [("a", .directory
      [("b", .directory [("b.go", .file 0o644 (.text "package b\n"))])])])])]),
    ("lib", .directory libraryEntries)]
  world := ()

/-- With a generator beside it the library is still one, and it is pinned. -/
theorem generator_beside_library :
    Package.LeftOut "gen.go" (.text generator) ∧
      Heedless ["lib"] "gen.go" (.file 0o644 (.text generator)) mirrored ∧
      library.files.locate true "lib" = .ok ["lib"] ∧
      library.files.descend? ["lib"] = some (.directory libraryEntries) ∧
      Node.OrderlyEntries libraryEntries ∧ libraryEntries.lookup "gen.go" = none ∧
      let without := onDirectory mirrored { } "lib" library
      let together := onDirectory mirrored { } "lib"
        (library.withFile (.file 0o644 (.text generator)) (["lib"] ++ ["gen.go"]))
      (match together.1 with
        | .ok (.committed summary) => summary.library && summary.filesChanged == 1
        | _ => false) = true ∧
      together.1 = without.1 ∧
      together.2.files.descend? (["lib"] ++ ["gen.go"]) = some (.file 0o644 (.text generator)) ∧
      (together.2.files.descend? ["lib", "lib.go"]).map Node.bare =
        (without.2.files.descend? ["lib", "lib.go"]).map Node.bare := by
  have hleft : Package.LeftOut "gen.go" (.text generator) := .constraint (by decide +kernel)
  have hheedless : Heedless ["lib"] "gen.go" (.file 0o644 (.text generator)) mirrored :=
    (onDirectory_leftOut hleft 0o644 ["lib"]).1 _ false
  have hplace : library.files.locate true "lib" = .ok ["lib"] := by decide +kernel
  have hdirectory : library.files.descend? ["lib"] = some (.directory libraryEntries) := rfl
  have hes : Node.OrderlyEntries libraryEntries := ⟨List.pairwise_singleton _ _, by decide⟩
  have habsent : libraryEntries.lookup "gen.go" = none := rfl
  refine ⟨hleft, hheedless, hplace, hdirectory, hes, habsent, ?_⟩
  obtain ⟨houtcome, -, -, hfile, hothers⟩ := (onDirectory_leftOut hleft 0o644 ["lib"]).2 mirrored
    hheedless { } "lib" library libraryEntries hplace hdirectory hes habsent
  exact ⟨by decide +kernel, houtcome, hfile, hothers ["lib", "lib.go"] (by decide)⟩

end Pass

end PinnedImports
