import PinnedImports.Proofs.Pass.Reloading
import PinnedImports.Proofs.Stability

/-!
# A second pass

Where services are fixed functions and nobody is asked, a pass leaves a package in which nothing is
left to do: a second pass with an empty cache writes no file (`onDirectory_idempotent`). Its keys are
among those of the first pass and so are its pins, so a substitution that it could put into force was
in force in the first pass already.
-/

set_option autoImplicit false

namespace PinnedImports

open Storage Registry

/-! ## Mirrored repositories -/

/-- The place of a record, if it has one, is in the registry's namespace, and neither the place nor
the revision holds a line break. -/
structure Registry.Record.Mirrored (r : Record) : Prop where
  within : r.registryPath.isEmpty = false → registryNamespace.toList <+: r.registryPath.toList
  place_oneLine : '\n' ∉ r.registryPath.toList
  revision_oneLine : '\n' ∉ r.revision.toList

namespace Registry

theorem newline_not_mem_toString {v : Int} (h : 0 < v) : '\n' ∉ (toString v).toList := by
  cases v with
  | negSucc n => simp at h
  | ofNat n =>
    intro hmem
    have hdigits : (toString (Int.ofNat n)).toList = Nat.toDigits 10 n := Nat.toList_repr
    rw [hdigits] at hmem
    have hdigit := Nat.isDigit_of_mem_toDigits (by decide) (by decide) hmem
    revert hdigit
    decide

theorem Record.Mirrored.revisionPath {r : Record} (h : r.Mirrored)
    (hplace : r.registryPath.isEmpty = false) :
    registryNamespace.toList <+: r.revisionPath.toList ∧ '\n' ∉ r.revisionPath.toList := by
  rw [Record.revisionPath]
  split
  · exact ⟨h.within hplace, h.place_oneLine⟩
  · rw [String.toList_append, String.toList_append, List.append_assoc]
    refine ⟨(h.within hplace).trans (List.prefix_append _ _), ?_⟩
    simp only [List.mem_append, not_or]
    exact ⟨h.place_oneLine, by decide, h.revision_oneLine⟩

theorem Record.Mirrored.versionPath {r : Record} (h : r.Mirrored)
    (hplace : r.registryPath.isEmpty = false) :
    registryNamespace.toList <+: r.versionPath.toList ∧ '\n' ∉ r.versionPath.toList := by
  rw [Record.versionPath]
  split
  · rename_i hversion
    rw [String.toList_append, String.toList_append, List.append_assoc]
    refine ⟨(h.within hplace).trans (List.prefix_append _ _), ?_⟩
    simp only [List.mem_append, not_or]
    exact ⟨h.place_oneLine, by decide, newline_not_mem_toString hversion⟩
  · exact h.revisionPath hplace

/-- Every path that is selected is in the registry's namespace and on one line. -/
theorem Record.Mirrored.select {r : Record} (h : r.Mirrored) {library preferRevisions : Bool}
    {path : String} (hselect : select r library preferRevisions = .use path) :
    registryNamespace.toList <+: path.toList ∧ '\n' ∉ path.toList := by
  unfold Registry.select at hselect
  split_ifs at hselect with herror hplace hlibrary hversion hunpinned hrevision
  all_goals
    rw [Bool.not_eq_true] at hplace
    rw [Selection.use.injEq] at hselect
    subst hselect
  · exact h.versionPath hplace
  · exact ⟨h.within hplace, h.place_oneLine⟩
  · exact h.revisionPath hplace
  · exact h.versionPath hplace

end Registry

namespace Pass

open Session

variable {γ : Type} {services : Services γ} {options : Options}

/-! ## What the first pass leaves -/

theorem pinned_nil (services : Services γ) (options : Options) (package : String) :
    Pinned services options package [] ∅ where
  answered key hkey := absurd hkey List.not_mem_nil
  get?_pins key path := by simp

theorem written_of_isEmpty {live : SourceFile → Dictionary String} {files : List SourceFile}
    (h : ∀ file ∈ files, (live file).isEmpty = true) (root : Node) :
    Written live files root root := by
  induction files with
  | nil => exact .done
  | cons file rest ih =>
    exact .keep (h file List.mem_cons_self)
      (ih fun other hother => h other (List.mem_cons_of_mem _ hother))

/-- A pass that goes well writes what the records select, and tells of it. -/
theorem onPackage_written (hinteractive : options.interactive = false)
    (hdryRun : options.dryRun = false) (package : Package) (s : Session (Traffic γ))
    (hsound : s.cache.Sound services.record services.outcome) {outcome : Outcome}
    {s' : Session (Traffic γ)} (h : onPackage services.tools options package s = (.ok outcome, s'))
    (hwrites : ∀ report ∈ committedReports (.ok outcome), report.error = none) :
    let analysis := (Analysis.ofFiles (lookup services.tools) package.files s).1
    ∃ pins, Pinned services options package.name analysis.keys pins ∧
      Written (liveIn services pins analysis.disabled) package.files s.files s'.files ∧
      ∀ file ∈ package.files, (liveIn services pins analysis.disabled file).isEmpty = false →
        ∃ report ∈ committedReports (.ok outcome), report.file = file.path ∧
          report.substitutions = liveIn services pins analysis.disabled file := by
  intro analysis
  obtain ⟨hkeys, -, hfiles⟩ | ⟨failure, -, hfailure⟩ |
      ⟨choices, s₁, hpinned, hfiles, hsound₁, hrun⟩ :=
    onPackage_unattended hinteractive package hsound
  · -- Where nothing may change, the pass is one without pins.
    have hidle : ∀ file ∈ package.files,
        (liveIn services ∅ analysis.disabled file).isEmpty = true := fun file _ =>
      fetchable_isEmpty (substitutions_isEmpty_of_isEmpty rfl _ _)
    rw [h] at hfiles
    refine ⟨∅, ?_, ?_, fun file hfile hlive => ?_⟩
    · rw [show analysis.keys = [] from hkeys]
      exact pinned_nil services options package.name
    · rw [show s'.files = s.files from hfiles]
      exact written_of_isEmpty hidle s.files
    · rw [hidle file hfile] at hlive
      simp at hlive
  · rw [h] at hfailure
    simp at hfailure
  · rw [h] at hrun
    simp only [Prod.mk.injEq, Except.ok.injEq] at hrun
    obtain ⟨rfl, rfl⟩ := hrun
    refine ⟨choices.pins, hpinned, ?_, fun file hfile hlive => ?_⟩
    · have hall := commitAll_written hdryRun choices.pins analysis.disabled package.files hsound₁
        hwrites
      rw [hfiles] at hall
      exact hall
    · exact exists_report_of_live hdryRun hfile hlive hsound₁

/-! ## What the second pass finds -/

variable {name : String → Analysis.NameAnswer}

/-- A path that is put into force is in the registry's namespace, and it is on one line if the path
it stands for is. -/
theorem mirrored_of_live {package : String} {keys : List String} {pins : Dictionary String}
    (hpinned : Pinned services options package keys pins)
    (hmirrored : ∀ request record, services.record request = .ok record → record.Mirrored)
    {disabled : StringSet} {file : SourceFile} {path new : String}
    (h : (liveIn services pins disabled file).get? path = some new) :
    registryNamespace.toList <+: new.toList ∧ ('\n' ∉ path.toList → '\n' ∉ new.toList) := by
  obtain ⟨-, repository, pinned, -, hpin, hreplace⟩ :=
    Imports.substitute?_eq_some.1 (get?_liveIn.1 h).1.2
  obtain ⟨-, rest, rfl, rfl⟩ := replaceKey?_eq_some.1 hreplace
  obtain ⟨-, record, hrecord, hselect⟩ := (hpinned.get?_pins _ _).1 hpin
  obtain ⟨hwithin, honeLine⟩ := (hmirrored _ _ hrecord).select hselect
  rw [String.toList_append, String.toList_append]
  refine ⟨hwithin.trans (List.prefix_append _ _), fun hpath => ?_⟩
  rw [List.mem_append, not_or] at hpath ⊢
  exact ⟨honeLine, hpath.2⟩

section Settled

variable {package : Package} {pins pins' : Dictionary String} {analysis analysis' : Analysis}
  {renew : SourceFile → SourceFile}

/-- What a pass has put into force settles the package. -/
theorem settled_of_live {files : List SourceFile} {keys : List String}
    (hjudges : Analysis.Judges name files analysis)
    (hpinned : Pinned services options package.name keys pins)
    (hmirrored : ∀ request record, services.record request = .ok record → record.Mirrored)
    (hrenewed : ∀ file ∈ files,
      Renewed (liveIn services pins analysis.disabled file) file (renew file)) :
    Analysis.Settled name files (liveIn services pins analysis.disabled) renew where
  renewed := hrenewed
  not_kept _ _ _ _ hnew :=
    hjudges.disabled_eq_false.1 (Imports.substitute?_eq_some.1 (get?_liveIn.1 hnew).1.2).1
  canonical _ _ _ _ hnew _ hrepository :=
    Repository.isCanonical_of_namespace (mirrored_of_live hpinned hmirrored hnew).1 hrepository

variable (hjudges : Analysis.Judges name package.files analysis)
  (hpinned : Pinned services options package.name analysis.keys pins)
  (hsettled : Analysis.Settled name package.files (liveIn services pins analysis.disabled) renew)
  (hjudges' : Analysis.Judges name (package.files.map renew) analysis')

include hjudges hsettled hjudges'

/-- The second pass asks for no other repositories than the first. -/
theorem keys_again {key : String} (hkey : key ∈ analysis'.keys) : key ∈ analysis.keys := by
  obtain ⟨_, hfile', spec, hspec, hdisabled, repository, hrepository, hkey⟩ :=
    (hjudges'.keys key).1 hkey
  obtain ⟨file, hfile, rfl⟩ := List.mem_map.1 hfile'
  obtain ⟨⟨spec₀, hspec₀, hpath⟩, -, hbefore⟩ := hsettled.exists_eligible_before hfile hspec
    (hjudges'.disabled_eq_false.1 hdisabled) hrepository
  rw [← hpath] at hbefore hrepository
  exact (hjudges.keys key).2
    ⟨file, hfile, spec₀, hspec₀, hjudges.disabled_eq_false.2 hbefore, repository, hrepository, hkey⟩

include hpinned

/-- The second pass puts nothing into force. -/
theorem live_again (hpinned' : Pinned services options package.name analysis'.keys pins')
    {file : SourceFile} (hfile : file ∈ package.files) :
    (liveIn services pins' analysis'.disabled (renew file)).isEmpty = true := by
  rw [Dictionary.isEmpty_iff]
  intro path
  rw [Option.eq_none_iff_forall_ne_some]
  intro new hnew
  obtain ⟨⟨⟨spec, hspec, rfl⟩, hsub⟩, hfetched⟩ := get?_liveIn.1 hnew
  obtain ⟨hdisabled, repository, pinned, hrepository, hpin, hreplace⟩ :=
    Imports.substitute?_eq_some.1 hsub
  obtain ⟨himport, hlive, hbefore⟩ := hsettled.exists_eligible_before hfile hspec
    (hjudges'.disabled_eq_false.1 hdisabled) hrepository
  -- The record selects the same path in both passes, so the first would have put it into force.
  have hpin₀ : pins.get? repository.key = some pinned := by
    obtain ⟨hkey, hrecord⟩ := (hpinned'.get?_pins _ _).1 hpin
    exact (hpinned.get?_pins _ _).2 ⟨keys_again hjudges hsettled hjudges' hkey, hrecord⟩
  have hlive₀ := get?_liveIn.2 ⟨⟨himport, Imports.substitute?_eq_some.2
    ⟨hjudges.disabled_eq_false.2 hbefore, repository, pinned, hrepository, hpin₀, hreplace⟩⟩,
    hfetched⟩
  rw [hlive] at hlive₀
  simp at hlive₀

/-- The registry does not fail in the second pass. -/
theorem answered_again (failure : Failure) :
    (analysis'.keys.map Request.latest).mapM services.record ≠ .error failure := by
  intro hfailure
  rw [mapM_eq_error_iff] at hfailure
  obtain ⟨request, hrequest, hfailed⟩ := List.exists_of_findSome?_eq_some hfailure
  obtain ⟨key, hkey, rfl⟩ := List.mem_map.1 hrequest
  obtain ⟨record, hrecord⟩ := hpinned.answered key (keys_again hjudges hsettled hjudges' hkey)
  rw [hrecord] at hfailed
  simp at hfailed

end Settled

theorem filesChanged_summarize (hdryRun : options.dryRun = false) (package : Package)
    (analysis : Analysis) (choices : Choices) {reports : List FileReport}
    (h : ∀ report ∈ reports, report.written = false) :
    (summarize options package analysis choices reports).filesChanged = 0 := by
  have hnone : reports.filter (FileReport.counts options.dryRun) = [] := by
    rw [List.filter_eq_nil_iff]
    intro report hreport
    simp [FileReport.counts, hdryRun, h report hreport]
  rw [summarize, hnone, List.length_nil]

/-- **In a settled package there is nothing to do.** -/
theorem onPackage_settled (hinteractive : options.interactive = false)
    (hdryRun : options.dryRun = false)
    (hname : ∀ files path, (services.name files path).1 = name path) {package : Package}
    {analysis : Analysis} (hjudges : Analysis.Judges name package.files analysis)
    {pins : Dictionary String}
    (hpinned : Pinned services options package.name analysis.keys pins)
    {renew : SourceFile → SourceFile}
    (hsettled : Analysis.Settled name package.files (liveIn services pins analysis.disabled) renew)
    {s : Session (Traffic γ)} (hsound : s.cache.Sound services.record services.outcome) :
    let again := onPackage services.tools options
      { package with files := package.files.map renew } s
    again.2.files = s.files ∧ (again.1 = .ok .nothing ∨
      ∃ summary, again.1 = .ok (.committed summary) ∧ summary.filesChanged = 0) := by
  intro again
  have hjudges' := Analysis.judges_ofFiles (lookup services.tools)
    (fun path t => hname t.files path) (package.files.map renew) s
  obtain ⟨-, hnothing, hfiles⟩ | ⟨failure, hfailure, -⟩ |
      ⟨choices, s₁, hpinned', hfiles, hsound', hrun⟩ :=
    onPackage_unattended hinteractive
      { package with files := package.files.map renew } hsound
  · exact ⟨hfiles, .inl hnothing⟩
  · exact absurd hfailure (answered_again hjudges hpinned hsettled hjudges' failure)
  · obtain ⟨hidle, hreports⟩ := commitAll_idle hdryRun (fun _ hfile' => by
      obtain ⟨file, hfile, rfl⟩ := List.mem_map.1 hfile'
      exact live_again hjudges hpinned hsettled hjudges' hpinned' hfile) hsound'
    rw [show again = _ from hrun]
    exact ⟨hidle.trans hfiles, .inr ⟨_, rfl, filesChanged_summarize hdryRun _ _ _ hreports⟩⟩

/-! ## Two passes -/

/-- A source file that can be read again when it has been written: the import declarations in which a
reported substitution is made stand before the code, no import path has a line break, and above each
group in which one is made the comment lines begin outside of comments. -/
structure Rewritable (reports : List FileReport) (file : SourceFile) : Prop where
  importsBeforeCode : ∀ report ∈ reports, report.file = file.path →
    ImportsBeforeCode file.text.toList report.substitutions file.source
  oneLine : ∀ spec ∈ file.source.imports, '\n' ∉ spec.path.toList
  leadsInCode : ∀ report ∈ reports, report.file = file.path →
    Imports.LeadsInCode file.text.toList report.substitutions file.source.imports

/-- What a pass puts into force in such a file is read again. -/
theorem rereads_of_rewritable {package : String} {keys : List String} {pins : Dictionary String}
    (hpinned : Pinned services options package keys pins)
    (hmirrored : ∀ request record, services.record request = .ok record → record.Mirrored)
    {file : SourceFile} (hparse : Go.Source.parse? file.text.toList = some file.source)
    {reports : List FileReport} (hrewritable : Rewritable reports file) {disabled : StringSet}
    (hreported : ∃ report ∈ reports, report.file = file.path ∧
      report.substitutions = liveIn services pins disabled file) :
    file.Rereads (liveIn services pins disabled file) := by
  obtain ⟨report, hreport, hpath, hsubs⟩ := hreported
  have hbefore := hrewritable.importsBeforeCode report hreport hpath
  have hleads := hrewritable.leadsInCode report hreport hpath
  rw [hsubs] at hbefore hleads
  have honeLine : Imports.OneLine (liveIn services pins disabled file) := by
    intro path new hnew
    obtain ⟨spec, hspec, rfl⟩ := (get?_liveIn.1 hnew).1.1
    exact (mirrored_of_live hpinned hmirrored hnew).2 (hrewritable.oneLine spec hspec)
  obtain ⟨hallows, hrenewed⟩ := SourceFile.exists_renewed hparse hbefore hleads honeLine
  exact ⟨hallows _, hrenewed⟩

/-- **A second pass does nothing.** When a pass without questions has written all that it wanted, a
second one with an empty cache leaves the files as they are, and it finds nothing that may change or
reports no changed file. -/
theorem onDirectory_idempotent (services : Services γ) (options : Options) (dir : String)
    (hinteractive : options.interactive = false) (hdryRun : options.dryRun = false)
    (hname : ∀ files path, (services.name files path).1 = name path)
    (hmirrored : ∀ request record, services.record request = .ok record → record.Mirrored)
    {s s' : Session (Traffic γ)} (hsound : s.cache.Sound services.record services.outcome)
    (horderly : s.files.Orderly dir) {outcome : Outcome}
    (hfirst : onDirectory services.tools options dir s = (.ok outcome, s'))
    (hwrites : ∀ report ∈ committedReports (.ok outcome), report.error = none)
    (hrewritable : ∀ package notices, Package.load s.files dir = .ok (some package, notices) →
      ∀ file ∈ package.files, Rewritable (committedReports (.ok outcome)) file) :
    let again := onDirectory services.tools options dir { s' with cache := ∅ }
    again.2.files = s'.files ∧ (again.1 = .ok .nothing ∨
      ∃ summary, again.1 = .ok (.committed summary) ∧ summary.filesChanged = 0) := by
  intro again
  have hagain : again = onDirectory services.tools options dir { s' with cache := ∅ } := rfl
  rw [onDirectory_eq] at hfirst hagain
  rcases hload : Package.load s.files dir with cause | ⟨_ | package, notices⟩
  · rw [hload] at hfirst
    have hfailed := (Prod.mk.inj hfirst).1
    simp at hfailed
  · rw [hload] at hfirst
    have hfiles : s'.files = s.files := by
      rw [← (Prod.mk.inj hfirst).2, keepsFiles_notify]
    simp only [hfiles, hload] at hagain
    rw [hagain]
    exact ⟨hfiles.symm, .inl rfl⟩
  · -- The package settles, it is loaded again as it was left, and then there is nothing to do.
    rw [hload] at hfirst
    simp only at hfirst
    obtain ⟨pins, hpinned, hwritten, hreports⟩ := onPackage_written hinteractive hdryRun package
      (notify services.tools notices s).2 hsound hfirst hwrites
    have hjudges := Analysis.judges_ofFiles (lookup services.tools)
      (fun path t => hname t.files path) package.files (notify services.tools notices s).2
    generalize (Analysis.ofFiles (lookup services.tools) package.files
      (notify services.tools notices s).2).1 = analysis at hpinned hwritten hreports hjudges
    have hrereads : ∀ file ∈ package.files,
        (liveIn services pins analysis.disabled file).isEmpty = false →
          file.Rereads (liveIn services pins analysis.disabled file) := fun file hfile hlive =>
      rereads_of_rewritable hpinned hmirrored (Package.mem_files_of_load hload hfile).1
        (hrewritable package notices hload file hfile) (hreports file hfile hlive)
    have hsettled := settled_of_live hjudges hpinned hmirrored fun file hfile =>
      SourceFile.renewed_rendered (Package.mem_files_of_load hload hfile).2 (hrereads file hfile)
    have hload' := Package.load_written horderly hload hwritten hrereads
    simp only [hload'] at hagain
    rw [hagain]
    exact onPackage_settled hinteractive hdryRun hname hjudges hpinned hsettled Cache.sound_empty

/-- A registry with one repository; only the package at its root can be downloaded. -/
def oneRepository : Services Unit where
  palette := ⟨false⟩
  record request := .ok { path := request.path, registryPath := "gopkgs.com/b", revision := "1" }
  name _ _ := (.ok "b", [])
  outcome path := if path = "gopkgs.com/b.r1" then .fetched else .failed "not found"
  answer _ operator := ((.ok .accept, ∅), operator)

/-- A file that imports two packages of the repository. -/
def twoImports : Node :=
  .file 0o644 (.text
    "package main\n\nimport (\n\t// inside\n\t\"github.com/a/b/c\"\n\t\"github.com/a/b\"\n)\n")

/-- A directory with this file. -/
def twoImportsPackage : Session (Traffic Unit) where
  files := .directory [("p", .directory [("a.go", twoImports)])]
  world := { operator := () }

theorem orderly_twoImportsPackage : twoImportsPackage.files.Orderly "p" := by
  intro es hes
  have hlist : twoImportsPackage.files.list "p" = .ok [("a.go", twoImports)] := rfl
  rw [hlist, Except.ok.injEq] at hes
  subst hes
  exact ⟨List.pairwise_singleton _ _, by simp⟩

theorem mirrored_oneRepository (request : Request) (record : Record)
    (h : oneRepository.record request = .ok record) : record.Mirrored := by
  have hplace : registryNamespace.toList <+: "gopkgs.com/b".toList := by decide
  have hrecord : (⟨request.path, "gopkgs.com/b", 0, "1", false, "", ""⟩ : Record) = record :=
    Except.ok.inj h
  rw [← hrecord]
  exact ⟨fun _ => hplace, by simp, by simp⟩

/-- Whether a pass that goes well writes all that it wants, to files that can be read again. -/
def rewrites (services : Services Unit) (dir : String) (s : Session (Traffic Unit)) : Bool :=
  let reports := committedReports (onDirectory services.tools { } dir s).1
  reports.all (·.error.isNone) &&
    loads (fun package => package.files.all fun file =>
      file.source.imports.all (fun spec => !spec.path.toList.contains '\n') &&
      reports.all fun report =>
        decide (ImportsBeforeCode file.text.toList report.substitutions file.source ∧
          Imports.LeadsInCode file.text.toList report.substitutions file.source.imports))
      s.files dir

set_option maxRecDepth 10000 in
/-- The first pass pins one of two imports. The other one cannot be downloaded, and so the second pass
changes nothing. -/
theorem second_pass_behind_failed_download :
    ∃ summary s', onDirectory oneRepository.tools { } "p" twoImportsPackage =
        (.ok (.committed summary), s') ∧
      (∃ report ∈ summary.files, report.file = "p/a.go" ∧ report.written = true) ∧
      let again := onDirectory oneRepository.tools { } "p" { s' with cache := ∅ }
      again.2.files = s'.files ∧ (again.1 = .ok .nothing ∨
        ∃ summary, again.1 = .ok (.committed summary) ∧ summary.filesChanged = 0) := by
  have hreported : ((committedReports (onDirectory oneRepository.tools { } "p"
      twoImportsPackage).1).any fun report => report.file == "p/a.go" && report.written) = true := by
    decide +kernel
  have hconditions : rewrites oneRepository "p" twoImportsPackage = true := by
    decide +kernel
  rw [rewrites] at hconditions
  obtain ⟨⟨result, s'⟩, hrun⟩ :
      ∃ pass, onDirectory oneRepository.tools { } "p" twoImportsPackage = pass := ⟨_, rfl⟩
  rw [hrun] at hreported hconditions
  obtain ⟨report, hmem, hreport⟩ := List.any_eq_true.1 hreported
  obtain ⟨summary, rfl, hfile⟩ := exists_committed_of_mem hmem
  rw [Bool.and_eq_true, beq_iff_eq] at hreport
  rw [Bool.and_eq_true, List.all_eq_true] at hconditions
  obtain ⟨herrors, hloads⟩ := hconditions
  refine ⟨summary, s', hrun, ⟨report, hfile, hreport⟩, ?_⟩
  refine onDirectory_idempotent oneRepository { } "p" rfl rfl (fun _ _ => rfl)
    mirrored_oneRepository Cache.sound_empty orderly_twoImportsPackage hrun
    (fun report hreport => Option.isNone_iff_eq_none.1 (herrors report hreport)) ?_
  intro package notices hload file hfile
  rw [loads, hload] at hloads
  simp only [List.all_eq_true, Bool.and_eq_true, decide_eq_true_eq] at hloads
  obtain ⟨honeLine, hreports⟩ := hloads file hfile
  refine ⟨fun report hreport _ => (hreports report hreport).1, fun spec hspec => ?_,
    fun report hreport _ => (hreports report hreport).2⟩
  simpa using honeLine spec hspec

end Pass

end PinnedImports
