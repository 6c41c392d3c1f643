import Mathlib.Data.Finset.Max
import PinnedImports.Proofs.Loading

/-!
# The name of a package

The files of a directory may declare different packages. The name that most of them declare wins,
and of several such names the one that is seen first (`Package.majority_eq_some_iff`). A directory
that can be listed has a package exactly if one of its source files takes part in the build and is
parsed, and the package has the files that declare its name (`Package.load_elects`).
-/

set_option autoImplicit false

namespace PinnedImports.Package

open Storage

/-! ## The most frequent name -/

theorem exists_count_max {names : List String} (hne : names ≠ []) :
    ∃ name ∈ names, ∀ other ∈ names, names.count other ≤ names.count name := by
  obtain ⟨first, hfirst⟩ := List.exists_mem_of_ne_nil names hne
  obtain ⟨name, hname, hmax⟩ := names.toFinset.exists_max_image names.count
    ⟨first, List.mem_toFinset.2 hfirst⟩
  refine ⟨name, List.mem_toFinset.1 hname, fun other hother => ?_⟩
  exact hmax other (List.mem_toFinset.2 hother)

theorem majority_eq_none_iff {names : List String} : majority names = none ↔ names = [] := by
  constructor
  · intro h
    by_contra hne
    obtain ⟨name, hname, hmax⟩ := exists_count_max hne
    have hnot := List.find?_eq_none.1 h name hname
    simp only [List.all_eq_true, decide_eq_true_eq] at hnot
    exact hnot hmax
  · rintro rfl
    rfl

/-- A name that no other one is more frequent than, and that no equally frequent one is seen
before. -/
structure Leads (name : String) (names : List String) : Prop where
  mem : name ∈ names
  most : ∀ other, names.count other ≤ names.count name
  first : ∀ other ∈ names, names.count other = names.count name →
    names.idxOf name ≤ names.idxOf other

/-- Only one name leads. -/
theorem Leads.eq {a b : String} {names : List String} (ha : Leads a names) (hb : Leads b names) :
    a = b := by
  have hcount : names.count a = names.count b := Nat.le_antisymm (hb.most a) (ha.most b)
  have hplace : names.idxOf a = names.idxOf b :=
    Nat.le_antisymm (ha.first b hb.mem hcount.symm) (hb.first a ha.mem hcount)
  exact (List.idxOf_inj ha.mem).1 hplace

theorem leads_of_majority {names : List String} {name : String}
    (h : majority names = some name) : Leads name names := by
  obtain ⟨hmost, front, back, rfl, hfront⟩ := List.find?_eq_some_iff_append.1 h
  simp only [List.all_eq_true, decide_eq_true_eq] at hmost
  have hmost' : ∀ other, (front ++ name :: back).count other ≤
      (front ++ name :: back).count name := by
    intro other
    by_cases hother : other ∈ front ++ name :: back
    · exact hmost other hother
    · rw [List.count_eq_zero.2 hother]
      exact Nat.zero_le _
  -- A name that is as frequent as the one that is found would have been found before it.
  have hunfound : ∀ other,
      (front ++ name :: back).count other = (front ++ name :: back).count name →
        other ∉ front := by
    intro other hcount hother
    have hless := hfront other hother
    simp only [Bool.not_eq_true', List.all_eq_false, decide_eq_true_eq] at hless
    obtain ⟨more, -, hmore⟩ := hless
    rw [hcount] at hmore
    exact hmore (hmost' more)
  refine ⟨List.mem_append_right front List.mem_cons_self, hmost', fun other _ hcount => ?_⟩
  rw [List.idxOf_append_of_notMem (hunfound name rfl),
    List.idxOf_append_of_notMem (hunfound other hcount), List.idxOf_cons_self]
  exact Nat.add_le_add_left (Nat.zero_le _) _

/-- **The majority is the leading name.** -/
theorem majority_eq_some_iff {names : List String} {name : String} :
    majority names = some name ↔ Leads name names := by
  refine ⟨leads_of_majority, fun h => ?_⟩
  cases hfound : majority names with
  | none =>
    rw [majority_eq_none_iff.1 hfound] at h
    exact absurd h.mem List.not_mem_nil
  | some found => rw [(leads_of_majority hfound).eq h]

/-- Two names with two files each: the one that is declared first. -/
example : majority ["b", "a", "c", "a", "b"] = some "b" := by decide

/-! ## The files that are read -/

/-- The file that is read from a source file; none if that is no text, is left out by its
constraints or has a syntax error. -/
def parsed? : String × Content → Option SourceFile
  | (_, .bytes _) => none
  | (path, .text text) =>
    if Build.Platform.host.allowsSource text then SourceFile.parse? path text else none

theorem readFiles_eq_filterMap (found : List (String × Content)) :
    (readFiles found).1 = found.filterMap parsed? := by
  induction found with
  | nil => rfl
  | cons source rest ih =>
    obtain ⟨path, content⟩ := source
    rw [readFiles, List.filterMap_cons, ← ih]
    cases content with
    | bytes data => rfl
    | text text =>
      simp only [readFile, parsed?]
      cases (if Build.Platform.host.allowsSource text then SourceFile.parse? path text else none)
      · rfl
      · rfl

theorem parsed?_ne_none_iff {source : String × Content} :
    parsed? source ≠ none ↔ ∃ text, source.2 = .text text ∧
      Build.Platform.host.allowsSource text = true ∧
        Go.Source.parse? text.toList ≠ none := by
  obtain ⟨path, content⟩ := source
  cases content with
  | bytes data => simp [parsed?]
  | text text => simp [parsed?, SourceFile.parse?]

/-! ## The package -/

/-- The package of some files: its name leads among the names that they declare, and it has the
files that declare it, in their order. -/
structure Elects (files : List SourceFile) (package : Package) : Prop where
  leads : Leads package.name (files.map (·.source.package))
  files_eq : package.files = files.filter fun file => file.source.package == package.name
  files_ne_nil : package.files ≠ []

theorem elects_of_ofFiles {dir : String} {files : List SourceFile} {package : Package}
    {notices : List Notice} (h : ofFiles dir files = (some package, notices)) :
    Elects files package := by
  obtain ⟨hmajority, -, hfiles, -⟩ := ofFiles_eq_some.1 h
  have hleads := majority_eq_some_iff.1 hmajority
  refine ⟨hleads, hfiles, ?_⟩
  obtain ⟨file, hfile, hname⟩ := List.mem_map.1 hleads.mem
  rw [hfiles]
  exact List.ne_nil_of_mem (List.mem_filter.2 ⟨hfile, beq_iff_eq.2 hname⟩)

theorem ofFiles_eq_none_iff {dir : String} {files : List SourceFile} :
    (ofFiles dir files).1 = none ↔ files = [] := by
  rw [ofFiles, ← List.map_eq_nil_iff (f := fun file : SourceFile => file.source.package),
    ← majority_eq_none_iff]
  cases majority (files.map (·.source.package)) with
  | none => simp
  | some name => simp

/-- **A directory is loaded as the package that most of its files declare.** If the source files of
a directory can be listed, loading it goes well. There is no package exactly if none of them is a
text whose constraints hold and that is parsed. Otherwise the package is that of the directory; no
name is declared by more of these files than its own, and each name that is declared by as many is
seen no earlier; its files are those that declare its name, at least one, in the order in which they
are listed. -/
theorem load_elects {root : Node} {dir : String} {found : List (String × Content)}
    (hfound : sources root dir = .ok found) :
    discover root dir = .ok (found.map (·.1)) ∧
    ∃ package? notices, load root dir = .ok (package?, notices) ∧
      (package? = none ↔ ¬ ∃ source ∈ found, ∃ text, source.2 = .text text ∧
        Build.Platform.host.allowsSource text = true ∧ Go.Source.parse? text.toList ≠ none) ∧
      ∀ package, package? = some package →
        package.dir = dir ∧ Elects (found.filterMap parsed?) package ∧
          (package.files.map (·.path)).Sublist (found.map (·.1)) := by
  have hload : load root dir = .ok ((ofFiles dir (readFiles found).1).1,
      (readFiles found).2 ++ (ofFiles dir (readFiles found).1).2) := by
    rw [load, hfound]
  refine ⟨by rw [discover, hfound]; rfl, _, _, hload, ?_, fun package hpackage => ?_⟩
  · rw [ofFiles_eq_none_iff, readFiles_eq_filterMap, List.filterMap_eq_nil_iff]
    simp only [← parsed?_ne_none_iff]
    simp
  · have hfiles : ofFiles dir (readFiles found).1 =
        (some package, (ofFiles dir (readFiles found).1).2) := Prod.ext hpackage rfl
    have helects := elects_of_ofFiles hfiles
    refine ⟨(ofFiles_eq_some.1 hfiles).2.1, readFiles_eq_filterMap found ▸ helects, ?_⟩
    rw [helects.files_eq]
    exact (List.filter_sublist.map _).trans (paths_readFiles found)

/-- A directory in which two files declare one name and two another; one more file is no text, and
one is left out by its constraints. -/
def tiedNames : Node :=
  .directory [("p", .directory [
    ("a.go", .file 0o644 (.text "package b\n")),
    ("b.go", .file 0o644 (.text "package a\n")),
    ("c.go", .file 0o644 (.text "//go:build ignore\n\npackage a\n")),
    ("d.go", .file 0o644 (.bytes [0xff])),
    ("e.go", .file 0o644 (.text "package a\n")),
    ("f.go", .file 0o644 (.text "package b\n"))])]

/-- The name that is seen first is that of the package, since the other one has no more files. -/
theorem tie_goes_to_first :
    ∃ found package notices, sources tiedNames "p" = .ok found ∧
      load tiedNames "p" = .ok (some package, notices) ∧ package.name = "b" ∧
      package.files.map (·.path) = ["p/a.go", "p/f.go"] ∧
      Elects (found.filterMap parsed?) package := by
  obtain ⟨found, hfound⟩ : ∃ found, sources tiedNames "p" = .ok found := ⟨_, rfl⟩
  have hcheck : ((load tiedNames "p").toOption.bind (·.1)).any (fun package =>
      package.name == "b" && package.files.map (·.path) == ["p/a.go", "p/f.go"]) = true := by
    decide +kernel
  obtain ⟨-, package?, notices, hload, -, helects⟩ := load_elects hfound
  rw [hload] at hcheck
  obtain ⟨package, rfl, hpackage⟩ := (Option.any_eq_true ..).1 hcheck
  rw [Bool.and_eq_true, beq_iff_eq, beq_iff_eq] at hpackage
  exact ⟨found, package, notices, hfound, hload, hpackage.1, hpackage.2,
    (helects package rfl).2.1⟩

end PinnedImports.Package
