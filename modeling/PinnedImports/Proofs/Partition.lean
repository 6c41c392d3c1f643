import PinnedImports.Proofs.Eligibility
import PinnedImports.Proofs.Pass.Inquiries
import PinnedImports.Proofs.Pass.Substitutions

/-!
# How the imports of a package are parted

The judgement of a package parts the imported paths of repositories into disabled and eligible ones,
in the same way for every order of the files and imports, and no path of the registry's namespace is
asked about (`ofFiles_partitions`). An eligible path is filed under the key that is found in it, and
this key owns it exactly if the path is hosted, that is if nothing but packages follow the key
(`eligible_key_owns`).
-/

set_option autoImplicit false

namespace PinnedImports.Analysis

open Pass

/-- The judgement parts the imported paths of repositories into disabled and eligible ones. -/
structure Partitions (name : String → NameAnswer) (files : List SourceFile) (a : Analysis) :
    Prop where
  /-- A path of a repository is either disabled or filed under its key. -/
  parted : ∀ path repository, Imported files path →
    Repository.ofImportPath? path = some repository →
      (Filed a.eligible repository.key path ↔ ¬ a.disabled.contains path = true)
  /-- A path is filed under no other key. -/
  key : ∀ key path, Filed a.eligible key path → Imported files path ∧
    ∃ repository, Repository.ofImportPath? path = some repository ∧ repository.key = key
  /-- A path of no repository is neither disabled nor filed. -/
  stray : ∀ path, Repository.ofImportPath? path = none →
    ¬ a.disabled.contains path = true ∧ ∀ key, ¬ Filed a.eligible key path
  /-- A path is disabled if one of its imports has a reason to be kept. -/
  disabled : ∀ path, a.disabled.contains path = true ↔ Kept name files path
  /-- The kept imports are those of the disabled paths. -/
  kept : ∀ path, (∃ entry ∈ a.kept, entry.path = path) ↔ a.disabled.contains path = true
  /-- Each key has a path filed under it. -/
  keys : ∀ key ∈ a.keys, ∃ path, Filed a.eligible key path
  /-- Neither keys nor eligible paths are of the registry's namespace. -/
  namespaced : ∀ key path, Filed a.eligible key path →
    ¬ registryNamespace.toList <+: key.toList ∧ ¬ registryNamespace.toList <+: path.toList

variable {σ : Type} {name : String → NameAnswer} {lookup : String → σ → NameAnswer × σ}

theorem not_kept_of_none {files : List SourceFile} {path : String}
    (h : Repository.ofImportPath? path = none) : ¬ Kept name files path := by
  rintro ⟨file, -, spec, -, rfl, hverdict⟩
  rw [verdict?, h] at hverdict
  simp at hverdict

theorem partitions_ofFiles (hlookup : ∀ path world, (lookup path world).1 = name path)
    (files : List SourceFile) (world : σ) :
    Partitions name files (ofFiles lookup files world).1 where
  parted path repository himported hrepository := by
    rw [filed_ofFiles, Bool.not_eq_true]
    constructor
    · exact fun h => h.2.1
    · exact fun h => ⟨himported, h, repository, hrepository, rfl⟩
  key key path h := by
    obtain ⟨himported, -, hrepository⟩ := filed_ofFiles.1 h
    exact ⟨himported, hrepository⟩
  stray path hnone := by
    refine ⟨fun hdisabled => ?_, fun key hfiled => ?_⟩
    · exact not_kept_of_none hnone ((mem_disabled_iff_kept hlookup world).1 hdisabled)
    · obtain ⟨-, -, repository, hrepository, -⟩ := filed_ofFiles.1 hfiled
      rw [hnone] at hrepository
      simp at hrepository
  disabled path := mem_disabled_iff_kept hlookup world
  kept path := mem_kept_iff_disabled
  keys key h := exists_filed_of_mem_keys h
  namespaced key path h := not_canonical_of_filed h

/-- **The judgement parts the imports, and their order does not matter.** Where package names are a
fixed function, an imported path of a repository is either disabled or filed under its key alone,
and it is disabled exactly if one of its imports has a reason to be kept. Another order of the files
or of their imports leads to the same disabled and eligible paths. Nothing of the registry's
namespace is eligible, so in a run neither the registry nor the operator is ever asked about it. -/
theorem ofFiles_partitions (hlookup : ∀ path world, (lookup path world).1 = name path)
    (files : List SourceFile) (world : σ) :
    Partitions name files (ofFiles lookup files world).1 ∧
    (∀ files' world', Reordered files files' →
      (ofFiles lookup files' world').1.disabled = (ofFiles lookup files world).1.disabled ∧
        (ofFiles lookup files' world').1.eligible = (ofFiles lookup files world).1.eligible) ∧
    ∀ {τ : Type} (tools : Collaborators τ) (options : Options) (dirs : List String) (s : Session τ),
      ∃ log : List Inquiry,
        (∀ inquiry ∈ log, ∀ key ∈ inquiry.keys, ¬ registryNamespace.toList <+: key.toList) ∧
        run tools.loggingInquiries options dirs (s.withInquiries []) =
          ((run tools options dirs s).1, (run tools options dirs s).2.withInquiries log) := by
  refine ⟨partitions_ofFiles hlookup files world, fun files' world' hreordered =>
    ofFiles_reordered hlookup hreordered world', fun tools options dirs s => ?_⟩
  refine exists_inquiries tools options (fun lookup' files' world' key hkey => ?_) dirs s
  obtain ⟨path, hfiled⟩ := exists_filed_of_mem_keys hkey
  exact (not_canonical_of_filed hfiled).1

/-- Every package is called by its path. -/
def byPath (path : String) (world : Unit) : NameAnswer × Unit := (.ok path, world)

/-- A file that uses a package without harm, and a package of the registry's namespace. -/
def harmlessUse : String :=
  "package p\nimport (\n\tw \"github.com/acme/widget\"\n\t\"gopkgs.com/gear.v1\"\n" ++
    "\t\"github.com/acme/cog/teeth\"\n)\nvar _ = w.New\n"

/-- A file of the same package that imports the first one for its effects only. -/
def blankUse : String := "package p\nimport (\n\t\"fmt\"\n\t_ \"github.com/acme/widget\"\n)\n"

theorem filed_of_any {eligible : Dictionary StringSet} {key path : String}
    (h : (eligible.get? key).any (·.contains path) = true) : Filed eligible key path :=
  (Option.any_eq_true ..).1 h

set_option maxRecDepth 10000 in
/-- The blank import disables the path of the harmless one, in either order of the files, and the
other repository stays eligible. -/
theorem blank_use_disables :
    ∃ first second, SourceFile.parse? "p/a.go" harmlessUse = some first ∧
      SourceFile.parse? "p/b.go" blankUse = some second ∧
      Partitions .ok [first, second] (ofFiles byPath [first, second] ()).1 ∧
      (ofFiles byPath [second, first] ()).1.disabled.contains "github.com/acme/widget" = true ∧
      Filed (ofFiles byPath [second, first] ()).1.eligible "github.com/acme/cog"
        "github.com/acme/cog/teeth" := by
  have hcheck : (SourceFile.parse? "p/a.go" harmlessUse).any (fun first =>
      (SourceFile.parse? "p/b.go" blankUse).any fun second =>
        (ofFiles byPath [first, second] ()).1.disabled.contains "github.com/acme/widget" &&
          ((ofFiles byPath [first, second] ()).1.eligible.get? "github.com/acme/cog").any
            (·.contains "github.com/acme/cog/teeth")) = true := by
    decide +kernel
  rw [Option.any_eq_true] at hcheck
  obtain ⟨first, hfirst, hcheck⟩ := hcheck
  rw [Option.any_eq_true] at hcheck
  obtain ⟨second, hsecond, hcheck⟩ := hcheck
  rw [Bool.and_eq_true] at hcheck
  have hlookup : ∀ path world, (byPath path world).1 = .ok path := fun _ _ => rfl
  obtain ⟨hparts, hordered, -⟩ := ofFiles_partitions hlookup [first, second] ()
  have hreordered : Reordered [first, second] [second, first] :=
    ⟨[second, first], List.Perm.swap second first [],
      .cons ⟨rfl, rfl, .refl _⟩ (.cons ⟨rfl, rfl, .refl _⟩ .nil)⟩
  obtain ⟨hdisabled, heligible⟩ := hordered [second, first] () hreordered
  refine ⟨first, second, hfirst, hsecond, hparts, ?_, ?_⟩
  · rw [hdisabled]
    exact hcheck.1
  · rw [heligible]
    exact filed_of_any hcheck.2

/-! ## Keys and the paths under them -/

/-- **An eligible path lies in the repository that it is filed under exactly if it is hosted.** The
key that is found in a path is its beginning. It owns the path, and can be exchanged for another
one, unless the path goes on behind the key with a character that is part of no repository name.
Where all paths of repositories in a package are hosted, a pass asks the registry and the operator
only about repositories that the package imports from. -/
theorem eligible_key_owns (lookup : String → σ → NameAnswer × σ) (files : List SourceFile)
    (world : σ) :
    (∀ path repository, Repository.ofImportPath? path = some repository →
      repository.key.toList <+: path.toList ∧
        (owns repository.key path = true ↔ Repository.Hosted path)) ∧
    (∀ key path, Filed (ofFiles lookup files world).1.eligible key path →
      (owns key path = true ↔ Repository.Hosted path) ∧
        ∀ replacement,
          (replaceKey? key path replacement).isSome = true ↔ Repository.Hosted path) ∧
    ∀ {τ : Type} (tools : Collaborators τ) (options : Options) (dir : String) (s : Session τ),
      (∀ package notices, Package.load s.files dir = .ok (some package, notices) →
        ∀ path, Imported package.files path → (Repository.ofImportPath? path).isSome = true →
          Repository.Hosted path) →
      ∃ log : List Inquiry,
        (∀ inquiry ∈ log, ∀ key ∈ inquiry.keys, ∃ package notices path,
          Package.load s.files dir = .ok (some package, notices) ∧
            Imported package.files path ∧ owns key path = true) ∧
        onDirectory tools.loggingInquiries options dir (s.withInquiries []) =
          ((onDirectory tools options dir s).1,
            (onDirectory tools options dir s).2.withInquiries log) := by
  refine ⟨fun path repository h => ⟨(Repository.isKey_of_ofImportPath? h).2,
    Repository.owns_key_iff h⟩, fun key path h => ?_, fun tools options dir s hhosted => ?_⟩
  · obtain ⟨-, -, repository, hrepository, rfl⟩ := filed_ofFiles.1 h
    have howns := Repository.owns_key_iff hrepository
    refine ⟨howns, fun replacement => ?_⟩
    rw [replaceKey?, Option.isSome_map, ← howns, owns]
  · apply exists_inquiries_onDirectory tools options dir s
    intro package notices hload _ lookup' world' key hkey
    obtain ⟨path, hfiled⟩ := exists_filed_of_mem_keys hkey
    obtain ⟨himported, -, repository, hrepository, rfl⟩ := filed_ofFiles.1 hfiled
    have hpath := hhosted package notices hload path himported
      (Option.isSome_of_eq_some hrepository)
    exact ⟨package, notices, path, hload, himported,
      (Repository.owns_key_iff hrepository).2 hpath⟩

/-- A file that imports a package of a Google Code project and one whose project name goes on with a
hyphen behind its dotted ending. -/
def hyphenated : String :=
  "package p\nimport (\n\t\"code.google.com/p/go.tools/astutil\"\n" ++
    "\t\"code.google.com/p/go.tools-x/astutil\"\n)\n"

/-- Every import of `oneImport` is hosted. -/
theorem hosted_of_imported_oneImport {package : Package} {notices : List Notice} {path : String}
    (hload : Package.load oneImport.files "p" = .ok (some package, notices))
    (himported : Imported package.files path) : Repository.Hosted path := by
  have hpaths : loads (fun package => package.files.all fun file => file.source.imports.all
      (·.path == "github.com/a/b")) oneImport.files "p" = true := by
    decide +kernel
  rw [loads, hload] at hpaths
  obtain ⟨file, hfile, spec, hspec, rfl⟩ := himported
  rw [eq_of_beq (List.all_eq_true.1 (List.all_eq_true.1 hpaths file hfile) spec hspec)]
  have howns : (Repository.ofImportPath? "github.com/a/b").any
      (fun repository => owns repository.key "github.com/a/b") = true := by
    decide +kernel
  rw [Option.any_eq_true] at howns
  obtain ⟨repository, hrepository, howns⟩ := howns
  exact (Repository.owns_key_iff hrepository).1 howns

set_option maxRecDepth 10000 in
/-- Both paths are filed under the same key, but it owns only the first. In a directory without such
paths only repositories of the package are asked about. -/
theorem hyphenated_path_not_owned :
    ∃ file, SourceFile.parse? "p/a.go" hyphenated = some file ∧
      Filed (ofFiles byPath [file] ()).1.eligible "code.google.com/p/go.tools"
        "code.google.com/p/go.tools-x/astutil" ∧
      ¬ Repository.Hosted "code.google.com/p/go.tools-x/astutil" ∧
      Filed (ofFiles byPath [file] ()).1.eligible "code.google.com/p/go.tools"
        "code.google.com/p/go.tools/astutil" ∧
      Repository.Hosted "code.google.com/p/go.tools/astutil" ∧
      ∃ log : List Inquiry,
        (∀ inquiry ∈ log, ∀ key ∈ inquiry.keys, ∃ package notices path,
          Package.load oneImport.files "p" = .ok (some package, notices) ∧
            Imported package.files path ∧ owns key path = true) ∧
        onDirectory obliging.loggingInquiries { interactive := true } "p"
            (oneImport.withInquiries []) =
          ((onDirectory obliging { interactive := true } "p" oneImport).1,
            (onDirectory obliging { interactive := true } "p" oneImport).2.withInquiries log) := by
  have hcheck : (SourceFile.parse? "p/a.go" hyphenated).any (fun file =>
      ((ofFiles byPath [file] ()).1.eligible.get? "code.google.com/p/go.tools").any fun paths =>
        paths.contains "code.google.com/p/go.tools-x/astutil" &&
          paths.contains "code.google.com/p/go.tools/astutil") = true := by
    decide +kernel
  rw [Option.any_eq_true] at hcheck
  obtain ⟨file, hfile, hcheck⟩ := hcheck
  rw [Option.any_eq_true] at hcheck
  obtain ⟨paths, hpaths, hcheck⟩ := hcheck
  rw [Bool.and_eq_true] at hcheck
  obtain ⟨-, howns, hasked⟩ := eligible_key_owns byPath [file] ()
  have hstray : Filed (ofFiles byPath [file] ()).1.eligible "code.google.com/p/go.tools"
      "code.google.com/p/go.tools-x/astutil" := ⟨paths, hpaths, hcheck.1⟩
  have hlies : Filed (ofFiles byPath [file] ()).1.eligible "code.google.com/p/go.tools"
      "code.google.com/p/go.tools/astutil" := ⟨paths, hpaths, hcheck.2⟩
  refine ⟨file, hfile, hstray, fun hhosted => ?_, hlies, (howns _ _ hlies).1.1 (by decide +kernel),
    hasked obliging { interactive := true } "p" oneImport fun package notices hload path himported
      _ => hosted_of_imported_oneImport hload himported⟩
  have hnot : owns "code.google.com/p/go.tools" "code.google.com/p/go.tools-x/astutil" = false := by
    decide +kernel
  rw [(howns _ _ hstray).1.2 hhosted] at hnot
  simp at hnot

end PinnedImports.Analysis
