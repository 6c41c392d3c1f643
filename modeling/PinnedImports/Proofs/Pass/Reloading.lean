import PinnedImports.Proofs.Imports.Renewal
import PinnedImports.Proofs.Loading
import PinnedImports.Proofs.Pass.Unattended
import PinnedImports.Proofs.Storage.Listing

/-!
# Packages behind a commit

When files of a package have been written, the package is loaded again from its directory: the same
files are read in the same order, each with its substitutions in it (`Package.load_written`). Files
that are left out, unreadable or of another package are left out again with the same notices.
-/

set_option autoImplicit false

namespace PinnedImports

open Storage

/-- The rendered file belongs to the build if the file does, and it is read as the file with its
substitutions in it. -/
def SourceFile.Rereads (subs : Dictionary String) (file : SourceFile) : Prop :=
  let text := Imports.render file.text subs file.source.imports
  Build.Platform.host.allowsSource text = Build.Platform.host.allowsSource file.text ∧
    ∃ file', SourceFile.parse? file.path text = some file' ∧ Renewed subs file file'

/-- A file of the package `name` as it is read when its substitutions have been written. -/
def SourceFile.rendered (name : String) (live : SourceFile → Dictionary String)
    (file : SourceFile) : SourceFile :=
  if file.source.package = name ∧ (live file).isEmpty = false then
    (SourceFile.parse? file.path
      (Imports.render file.text (live file) file.source.imports)).getD file
  else file

theorem SourceFile.exists_rendered {name : String} {live : SourceFile → Dictionary String}
    {file : SourceFile} (hname : file.source.package = name) (hlive : (live file).isEmpty = false)
    (h : file.Rereads (live file)) :
    SourceFile.parse? file.path (Imports.render file.text (live file) file.source.imports) =
        some (file.rendered name live) ∧
      Renewed (live file) file (file.rendered name live) := by
  obtain ⟨-, file', hparse, hrenewed⟩ := h
  rw [rendered, if_pos ⟨hname, hlive⟩, hparse, Option.getD_some]
  exact ⟨rfl, hrenewed⟩

theorem SourceFile.rendered_of_isEmpty {name : String} {live : SourceFile → Dictionary String}
    {file : SourceFile} (h : (live file).isEmpty = true) : file.rendered name live = file :=
  if_neg fun hwritten => by simp [h] at hwritten

theorem SourceFile.rendered_of_stray {name : String} {live : SourceFile → Dictionary String}
    {file : SourceFile} (h : file.source.package ≠ name) : file.rendered name live = file :=
  if_neg fun hwritten => h hwritten.1

theorem SourceFile.renewed_rendered {name : String} {live : SourceFile → Dictionary String}
    {file : SourceFile} (hname : file.source.package = name)
    (h : (live file).isEmpty = false → file.Rereads (live file)) :
    Renewed (live file) file (file.rendered name live) := by
  cases hlive : (live file).isEmpty with
  | true =>
    rw [rendered_of_isEmpty hlive, Pass.eq_empty_of_isEmpty hlive]
    exact .refl file
  | false => exact (exists_rendered hname hlive (h hlive)).2

namespace Package

/-! ## Written files -/

/-- The source files in an orderly directory have different paths. -/
theorem nodup_paths_sources {root : Node} {dir : String} {found : List (String × Content)}
    (horderly : root.Orderly dir) (h : sources root dir = .ok found) :
    (found.map (·.1)).Nodup := by
  rw [sources_eq] at h
  cases hlist : root.list dir with
  | error e =>
    rw [hlist] at h
    simp [Except.map] at h
  | ok es =>
    rw [hlist] at h
    simp only [Except.map, Except.ok.injEq] at h
    subst h
    have hentries := horderly es hlist
    rw [List.Nodup, List.pairwise_map, List.pairwise_filterMap]
    refine hentries.sorted.imp_of_mem fun {a b} ha hb hlt x hx y hy heq => ?_
    obtain ⟨_, _, -, -, rfl⟩ := source?_eq_some.1 hx
    obtain ⟨_, _, -, -, rfl⟩ := source?_eq_some.1 hy
    have hname := join_injective (hentries.names a ha) (hentries.names b hb) heq
    rw [hname] at hlt
    exact String.lt_irrefl b.1 hlt

variable {live : SourceFile → Dictionary String}

/-- A source file with what is written to it. -/
def withWrites (live : SourceFile → Dictionary String) :
    List SourceFile → String × Content → String × Content
  | [], source => source
  | file :: rest, source =>
    withWrites live rest
      (if (live file).isEmpty then source
        else withText file.path (Imports.render file.text (live file) file.source.imports) source)

theorem withWrites_of_not_mem {files : List SourceFile} {source : String × Content}
    (h : source.1 ∉ files.map (·.path)) : withWrites live files source = source := by
  induction files with
  | nil => rfl
  | cons file rest ih =>
    rw [List.map_cons, List.mem_cons, not_or] at h
    rw [withWrites, withText, if_neg h.1, ite_self]
    exact ih h.2

theorem withWrites_of_mem {files : List SourceFile} (hnodup : (files.map (·.path)).Nodup)
    {file : SourceFile} (hfile : file ∈ files) (content : Content) :
    withWrites live files (file.path, content) =
      if (live file).isEmpty then (file.path, content)
      else (file.path, .text (Imports.render file.text (live file) file.source.imports)) := by
  induction files with
  | nil => simp at hfile
  | cons first rest ih =>
    rw [List.map_cons, List.nodup_cons] at hnodup
    rw [withWrites]
    rcases List.mem_cons.1 hfile with rfl | hrest
    · rw [withText, if_pos rfl]
      split <;> exact withWrites_of_not_mem hnodup.1
    · have hother : file.path ≠ first.path := by
        intro heq
        exact hnodup.1 (heq ▸ List.mem_map_of_mem (f := SourceFile.path) hrest)
      rw [withText, if_neg hother, ite_self]
      exact ih hnodup.2 hrest

/-- **The source files behind a commit** are those before it with what was written to them. -/
theorem sources_written {files : List SourceFile} {root root' : Node} {dir : String}
    (h : Pass.Written live files root root') :
    ∀ {found : List (String × Content)}, root.Orderly dir → sources root dir = .ok found →
      (∀ file ∈ files, file.path ∈ found.map (·.1)) →
        sources root' dir = .ok (found.map (withWrites live files)) := by
  -- Each write keeps the directory orderly, which the next one needs.
  induction h with
  | done =>
    intro found horderly hsources hpaths
    have hid : withWrites live [] = id := rfl
    rw [hid, List.map_id, hsources]
  | @keep file rest before after hempty hrest ih =>
    intro found horderly hsources hpaths
    rw [ih horderly hsources fun other hother => hpaths other (List.mem_cons_of_mem _ hother)]
    congr 2
    funext source
    rw [withWrites, if_pos hempty]
  | @write file rest before middle after hlive hreplace hrest ih =>
    intro found horderly hsources hpaths
    obtain ⟨horderly', hsources'⟩ :=
      sources_replaceText horderly hsources (hpaths file List.mem_cons_self) hreplace
    rw [ih horderly' hsources' fun other hother => ?_]
    · rw [List.map_map]
      congr 2
      funext source
      rw [Function.comp_apply, withWrites, if_neg (by rw [hlive]; exact Bool.false_ne_true)]
    · rw [List.map_map]
      have hsame : ((·.1) ∘ withText file.path (Imports.render file.text (live file)
          file.source.imports)) = (Prod.fst : String × Content → String) := by
        funext source
        rw [Function.comp_apply, withText]
        split <;> rfl
      rw [hsame]
      exact hpaths other (List.mem_cons_of_mem _ hother)

/-- What is read behind a commit at the place of a source file. -/
theorem readFile_withWrites {found : List (String × Content)}
    (hnodup : (found.map (·.1)).Nodup) {name : String} {files : List SourceFile}
    (hfiles : files = (readFiles found).1.filter fun file => file.source.package == name)
    (h : ∀ file ∈ files, (live file).isEmpty = false → file.Rereads (live file))
    {source : String × Content} (hsource : source ∈ found) :
    readFile (withWrites live files source).1 (withWrites live files source).2 =
      (readFile source.1 source.2).map (Option.map (SourceFile.rendered name live)) := by
  have hmem : ∀ file, file ∈ files ↔ file ∈ (readFiles found).1 ∧ file.source.package = name := by
    intro file
    rw [hfiles, List.mem_filter, beq_iff_eq]
  by_cases hwrites : ∃ file ∈ files, file.path = source.1
  · -- What stands there is the text of the file or what was written to it.
    obtain ⟨file, hfile, hpath⟩ := hwrites
    have hread := readFile_of_mem hnodup ((hmem file).1 hfile).1 hsource hpath
    obtain ⟨hcontent, hallows, -, -⟩ := readFile_eq_some.1 hread
    have hpair : source = (file.path, .text file.text) := Prod.ext hpath.symm hcontent
    have hnodupFiles : (files.map (·.path)).Nodup := by
      rw [hfiles]
      exact ((List.filter_sublist.map _).trans (paths_readFiles found)).nodup hnodup
    rw [hread, Except.map, Option.map_some, hpair, withWrites_of_mem hnodupFiles hfile]
    cases hlive : (live file).isEmpty with
    | true =>
      rw [if_pos rfl, SourceFile.rendered_of_isEmpty hlive, ← hcontent, hpath, hread]
    | false =>
      obtain ⟨hparse, -⟩ :=
        SourceFile.exists_rendered ((hmem file).1 hfile).2 hlive (h file hfile hlive)
      rw [if_neg Bool.false_ne_true, readFile, if_pos ((h file hfile hlive).1.trans hallows), hparse]
  · -- Nothing is written there, so what is read is no file of the package, and it is read again.
    have hnot : source.1 ∉ files.map (·.path) := by
      rw [List.mem_map]
      exact hwrites
    rw [withWrites_of_not_mem hnot]
    cases hread : readFile source.1 source.2 with
    | error notice => rfl
    | ok file? =>
      cases file? with
      | none => rfl
      | some file =>
        obtain ⟨-, -, hpath, -⟩ := readFile_eq_some.1 hread
        have hstray : file.source.package ≠ name := fun hname =>
          hwrites ⟨file, (hmem file).2 ⟨mem_readFiles.2 ⟨source, hsource, hread⟩, hname⟩, hpath⟩
        rw [Except.map, Option.map_some, SourceFile.rendered_of_stray hstray]

/-- **A package is loaded again behind a commit**, its files with their substitutions in them. -/
theorem load_written {root root' : Node} {dir : String} {package : Package}
    {notices : List Notice} (horderly : root.Orderly dir)
    (hload : load root dir = .ok (some package, notices))
    (hwritten : Pass.Written live package.files root root')
    (hrereads : ∀ file ∈ package.files, (live file).isEmpty = false → file.Rereads (live file)) :
    load root' dir = .ok (some { package with
      files := package.files.map (SourceFile.rendered package.name live) }, notices) := by
  obtain ⟨found, more, hsources, hofFiles, rfl⟩ := load_eq_some.1 hload
  obtain ⟨-, -, hown, -⟩ := ofFiles_eq_some.1 hofFiles
  have hmem : ∀ file, file ∈ package.files ↔
      file ∈ (readFiles found).1 ∧ file.source.package = package.name := by
    intro file
    rw [hown, List.mem_filter, beq_iff_eq]
  have hpaths : ∀ file ∈ package.files, file.path ∈ found.map (·.1) := fun file hfile =>
    (paths_readFiles found).subset (List.mem_map_of_mem ((hmem file).1 hfile).1)
  refine load_eq_some.2 ⟨_, more, sources_written hwritten horderly hsources hpaths, ?_⟩
  rw [readFiles_map fun source hsource =>
    readFile_withWrites (nodup_paths_sources horderly hsources) hown hrereads hsource]
  refine ⟨ofFiles_map hofFiles (fun file hfile => ?_)
    fun file _ hstray => SourceFile.rendered_of_stray hstray, rfl⟩
  by_cases hname : file.source.package = package.name
  · exact (SourceFile.renewed_rendered hname (hrereads file ((hmem file).2 ⟨hfile, hname⟩))).package
  · rw [SourceFile.rendered_of_stray hname]

end Package

end PinnedImports
