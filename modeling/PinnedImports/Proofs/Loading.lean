import Mathlib.Data.List.Nodup
import PinnedImports.Package

/-!
# Loading a package

What is loaded from a directory is read off its source files: each is read on its own
(`Package.mem_readFiles`), the name that most of them declare is that of the package, and the package
has the files that declare it (`Package.ofFiles_eq_some`).
-/

set_option autoImplicit false

namespace PinnedImports

open Storage

theorem SourceFile.parse?_eq_some {path text : String} {file : SourceFile} :
    SourceFile.parse? path text = some file ↔
      file.path = path ∧ file.text = text ∧ Go.Source.parse? text.toList = some file.source := by
  obtain ⟨path', text', source⟩ := file
  rw [SourceFile.parse?, Option.map_eq_some_iff]
  constructor
  · rintro ⟨found, hfound, heq⟩
    rw [SourceFile.mk.injEq] at heq
    obtain ⟨rfl, rfl, rfl⟩ := heq
    exact ⟨rfl, rfl, hfound⟩
  · rintro ⟨rfl, rfl, hfound⟩
    exact ⟨source, hfound, rfl⟩

namespace Package

/-! ## The files that are read -/

theorem readFile_eq_some {path : String} {content : Content} {file : SourceFile} :
    readFile path content = .ok (some file) ↔
      content = .text file.text ∧ Build.Platform.host.allowsSource file.text = true ∧
        file.path = path ∧ Go.Source.parse? file.text.toList = some file.source := by
  cases content with
  | bytes raw => simp [readFile]
  | text text =>
    rw [readFile, Except.ok.injEq, Option.ite_none_right_eq_some, SourceFile.parse?_eq_some,
      Content.text.injEq]
    constructor
    · rintro ⟨hallows, hpath, rfl, hparse⟩
      exact ⟨rfl, hallows, hpath, hparse⟩
    · rintro ⟨rfl, hallows, hpath, hparse⟩
      exact ⟨hallows, hpath, rfl, hparse⟩

theorem mem_readFiles {found : List (String × Content)} {file : SourceFile} :
    file ∈ (readFiles found).1 ↔ ∃ source ∈ found, readFile source.1 source.2 = .ok (some file) := by
  induction found with
  | nil => simp [readFiles]
  | cons source rest ih =>
    obtain ⟨path, content⟩ := source
    simp only [readFiles, List.mem_cons, exists_eq_or_imp]
    rw [← ih]
    cases readFile path content with
    | error notice => simp
    | ok file? => cases file? <;> simp [eq_comm]

theorem readFiles_append (first rest : List (String × Content)) :
    (readFiles (first ++ rest)).1 = (readFiles first).1 ++ (readFiles rest).1 := by
  induction first with
  | nil => rfl
  | cons source first ih =>
    obtain ⟨path, content⟩ := source
    rw [List.cons_append, readFiles, readFiles]
    cases readFile path content with
    | error notice => exact ih
    | ok file? =>
      simp only [ih, List.append_assoc]

/-- Where paths are different, what stands at the path of a file is what the file was read from. -/
theorem readFile_of_mem {found : List (String × Content)} (hnodup : (found.map (·.1)).Nodup)
    {file : SourceFile} (hfile : file ∈ (readFiles found).1) {source : String × Content}
    (hsource : source ∈ found) (hpath : file.path = source.1) :
    readFile source.1 source.2 = .ok (some file) := by
  obtain ⟨other, hother, hread⟩ := mem_readFiles.1 hfile
  obtain ⟨-, -, hfilePath, -⟩ := readFile_eq_some.1 hread
  -- A file is read from the source file at its path, and there is only one.
  have hsame : other = source :=
    List.inj_on_of_nodup_map hnodup hother hsource (hfilePath.symm.trans hpath)
  rw [← hsame, hread]

theorem paths_readFiles (found : List (String × Content)) :
    ((readFiles found).1.map (·.path)).Sublist (found.map (·.1)) := by
  induction found with
  | nil => exact List.Sublist.refl _
  | cons source rest ih =>
    obtain ⟨path, content⟩ := source
    rw [readFiles, List.map_cons]
    cases hread : readFile path content with
    | error notice => exact ih.cons path
    | ok file? =>
      cases file? with
      | none => exact ih.cons path
      | some file =>
        obtain ⟨-, -, rfl, -⟩ := readFile_eq_some.1 hread
        exact ih.cons_cons file.path

/-- Source files of which each is read to another file. -/
theorem readFiles_map {found : List (String × Content)}
    {update : String × Content → String × Content} {renew : SourceFile → SourceFile}
    (h : ∀ source ∈ found, readFile (update source).1 (update source).2 =
      (readFile source.1 source.2).map (Option.map renew)) :
    readFiles (found.map update) = ((readFiles found).1.map renew, (readFiles found).2) := by
  induction found with
  | nil => rfl
  | cons source rest ih =>
    obtain ⟨path, content⟩ := source
    have hfirst := h _ List.mem_cons_self
    have hrest := ih fun other hother => h other (List.mem_cons_of_mem _ hother)
    rw [List.map_cons, readFiles, readFiles, hrest, hfirst]
    cases readFile path content with
    | error notice => rfl
    | ok file? => cases file? <;> rfl

/-! ## The files of the package -/

/-- A package has the files that declare its name. -/
theorem ofFiles_eq_some {dir : String} {files : List SourceFile} {package : Package}
    {notices : List Notice} :
    ofFiles dir files = (some package, notices) ↔
      majority (files.map (·.source.package)) = some package.name ∧ package.dir = dir ∧
        package.files = files.filter (fun file => file.source.package == package.name) ∧
        notices = (files.filter fun file => !file.source.package == package.name).map
          (strayNotice package.name) := by
  obtain ⟨dir', name, own⟩ := package
  rw [ofFiles]
  cases majority (files.map (·.source.package)) with
  | none => simp
  | some found =>
    simp only [List.partition_eq_filter_filter, Prod.mk.injEq, Option.some.injEq, Package.mk.injEq]
    constructor
    · rintro ⟨⟨rfl, rfl, rfl⟩, rfl⟩
      exact ⟨rfl, rfl, rfl, rfl⟩
    · rintro ⟨rfl, rfl, rfl, rfl⟩
      exact ⟨⟨rfl, rfl, rfl⟩, rfl⟩

/-- The files of a package may change in all but the name that they declare. -/
theorem ofFiles_map {dir : String} {files : List SourceFile} {package : Package}
    {notices : List Notice} {renew : SourceFile → SourceFile}
    (h : ofFiles dir files = (some package, notices))
    (hname : ∀ file ∈ files, (renew file).source.package = file.source.package)
    (hstray : ∀ file ∈ files, file.source.package ≠ package.name → renew file = file) :
    ofFiles dir (files.map renew) =
      (some { package with files := package.files.map renew }, notices) := by
  obtain ⟨hmajority, hdir, hfiles, rfl⟩ := ofFiles_eq_some.1 h
  have hown : ∀ file ∈ files, ((renew file).source.package == package.name) =
      (file.source.package == package.name) := fun file hfile => by rw [hname file hfile]
  refine ofFiles_eq_some.2 ⟨?_, hdir, ?_, ?_⟩
  · rw [List.map_map, ← hmajority]
    congr 1
    exact List.map_congr_left hname
  · simp only [hfiles]
    rw [List.filter_map]
    congr 1
    exact List.filter_congr fun file hfile => (hown file hfile).symm
  · rw [List.filter_map]
    have hothers : (files.filter fun file => !(renew file).source.package == package.name) =
        files.filter fun file => !file.source.package == package.name :=
      List.filter_congr fun file hfile => by rw [hown file hfile]
    have hcomp : ((fun file : SourceFile => !file.source.package == package.name) ∘ renew) =
        fun file => !(renew file).source.package == package.name := rfl
    rw [hcomp, hothers, List.map_map]
    apply List.map_congr_left
    intro file hfile
    rw [List.mem_filter, Bool.not_eq_true', beq_eq_false_iff_ne] at hfile
    rw [Function.comp_apply, hstray file hfile.1 hfile.2]

/-- A package is loaded when its directory can be listed and most files declare its name. -/
theorem load_eq_some {root : Node} {dir : String} {package : Package} {notices : List Notice} :
    load root dir = .ok (some package, notices) ↔
      ∃ found more, sources root dir = .ok found ∧
        ofFiles dir (readFiles found).1 = (some package, more) ∧
        notices = (readFiles found).2 ++ more := by
  rw [load]
  cases sources root dir with
  | error cause => simp
  | ok found =>
    simp only [Except.ok.injEq, Prod.mk.injEq]
    constructor
    · rintro ⟨hpackage, rfl⟩
      exact ⟨found, _, rfl, Prod.ext hpackage rfl, rfl⟩
    · rintro ⟨_, more, rfl, hfiles, rfl⟩
      rw [hfiles]
      exact ⟨rfl, rfl⟩

/-- The files of a package are read from source files of the directory, and declare its name. -/
theorem exists_source_of_load {root : Node} {dir : String} {package : Package}
    {notices : List Notice} (h : load root dir = .ok (some package, notices)) {file : SourceFile}
    (hfile : file ∈ package.files) : ∃ found content, sources root dir = .ok found ∧
      (file.path, content) ∈ found ∧ Go.Source.parse? file.text.toList = some file.source ∧
        file.source.package = package.name := by
  obtain ⟨found, more, hfound, hfiles, -⟩ := load_eq_some.1 h
  obtain ⟨-, -, hown, -⟩ := ofFiles_eq_some.1 hfiles
  -- The package has those of the files that declare its name, and each was read from a source file.
  rw [hown, List.mem_filter, beq_iff_eq] at hfile
  obtain ⟨⟨path, content⟩, hsource, hread⟩ := mem_readFiles.1 hfile.1
  obtain ⟨-, -, rfl, hparse⟩ := readFile_eq_some.1 hread
  exact ⟨found, content, hfound, hsource, hparse, hfile.2⟩

/-- The files of a package are parsed and declare its name. -/
theorem mem_files_of_load {root : Node} {dir : String} {package : Package} {notices : List Notice}
    (h : load root dir = .ok (some package, notices)) {file : SourceFile}
    (hfile : file ∈ package.files) :
    Go.Source.parse? file.text.toList = some file.source ∧
      file.source.package = package.name := by
  obtain ⟨-, -, -, -, hparse, hname⟩ := exists_source_of_load h hfile
  exact ⟨hparse, hname⟩

end Package

end PinnedImports
