import PinnedImports.Proofs.Pass.Downloads

/-!
# Dry runs

A dry run writes nothing and asks for no download, and it foretells the pass that writes: both are
given the same answers, make the same choices and report on the same files (`Foretold`). Of the
substitutions that the dry run tells of, the pass puts those into force whose path it could download.
If that were all of them and every file could be written, both reports count the same
(`onDirectory_dryRun`).
-/

set_option autoImplicit false

namespace PinnedImports.Pass

open Session

variable {σ : Type} {tools : Collaborators σ} {options : Options}

/-! ## Nothing happens -/

theorem keepsFiles_commitAll (hdry : options.dryRun = true) (pins : Dictionary String)
    (disabled : StringSet) (files : List SourceFile) :
    KeepsFiles (commitAll tools options pins disabled files) := by
  induction files with
  | nil => exact .pure []
  | cons file rest ih =>
    rw [commitAll]
    split
    · exact ih
    · rename_i hsubs
      rw [Bool.not_eq_true] at hsubs
      have hcommit : KeepsFiles (commit tools options.dryRun options.verbose file
          (Imports.substitutions pins disabled file.source.imports)) := by
        intro s
        rw [hdry, commit_dryRun tools options.verbose file hsubs]
        rfl
      exact hcommit.bind fun _ => ih.bind fun _ => .pure _

theorem commitAll_withDownloader (hdry : options.dryRun = true)
    (downloader : Storage.Node → String → σ → Download × σ) (pins : Dictionary String)
    (disabled : StringSet) (files : List SourceFile) :
    commitAll (tools.withDownloader downloader) options pins disabled files =
      commitAll tools options pins disabled files := by
  induction files with
  | nil => rfl
  | cons file rest ih =>
    rw [commitAll, commitAll]
    split
    · exact ih
    · rename_i hsubs
      rw [Bool.not_eq_true] at hsubs
      have hcommit : commit (tools.withDownloader downloader) options.dryRun options.verbose file
            (Imports.substitutions pins disabled file.source.imports) =
          commit tools options.dryRun options.verbose file
            (Imports.substitutions pins disabled file.source.imports) := by
        funext s
        rw [hdry, commit_dryRun _ _ _ hsubs, commit_dryRun _ _ _ hsubs]
        rfl
      rw [hcommit, ih]

/-- A computation of a pass that writes no file and comes out the same whatever the downloader does. -/
structure Harmless {α : Type} (m : Collaborators σ → StateM (Session σ) α)
    (tools : Collaborators σ) : Prop where
  files : KeepsFiles (m tools)
  downloader : ∀ downloader, m (tools.withDownloader downloader) = m tools

theorem harmless_pinEligible (hdry : options.dryRun = true) (package : Package)
    (analysis : Analysis) :
    Harmless (fun tools => pinEligible tools options package analysis) tools where
  files := by
    unfold pinEligible
    apply (keepsFiles_resolve tools _).bind
    intro reply
    cases reply with
    | error failure => exact .pure _
    | ok records =>
      apply (keepsFiles_choose tools options package.name _ _).bind
      intro chosen
      rcases chosen with e | _ | choices
      · exact .pure _
      · exact .pure _
      · simp only
        split
        · exact .pure _
        · exact (keepsFiles_commitAll hdry _ _ _).bind fun _ => .pure _
  downloader downloader := by
    unfold pinEligible
    simp only [choose_withDownloader, commitAll_withDownloader hdry]
    rfl

theorem harmless_onPackage (hdry : options.dryRun = true) (package : Package) :
    Harmless (fun tools => onPackage tools options package) tools where
  files := by
    unfold onPackage
    apply (keepsFiles_analyze tools package.files).bind
    intro analysis
    apply (keepsFiles_notify tools _).bind
    intro _
    split
    · exact .pure _
    split
    · exact (keepsFiles_notify tools _).bind fun _ =>
        (harmless_pinEligible hdry package analysis).files
    · exact (harmless_pinEligible hdry package analysis).files
  downloader downloader := by
    have hpin : ∀ analysis, pinEligible (tools.withDownloader downloader) options package analysis =
        pinEligible tools options package analysis :=
      fun analysis => (harmless_pinEligible hdry package analysis).downloader downloader
    unfold onPackage
    simp only [hpin]
    rfl

theorem harmless_onDirectory (hdry : options.dryRun = true) (dir : String) :
    Harmless (fun tools => onDirectory tools options dir) tools where
  files := by
    intro s
    simp only [onDirectory_eq]
    rcases Package.load s.files dir with cause | ⟨_ | package, notices⟩
    · rfl
    · exact keepsFiles_notify tools notices s
    · exact ((harmless_onPackage hdry package).files _).trans (keepsFiles_notify tools notices s)
  downloader downloader := by
    funext s
    simp only [onDirectory_eq]
    rcases Package.load s.files dir with cause | ⟨_ | package, notices⟩
    · rfl
    · rfl
    · exact congrFun ((harmless_onPackage hdry package).downloader downloader) _

/-! ## What is foretold -/

/-- What the report of a dry run foretells of the report on the same file of a pass that writes. The
pass knows the outcomes of `cache` in the end. -/
structure FileReport.Foretells (cache : Cache) (dry wet : FileReport) : Prop where
  file : dry.file = wet.file
  /-- In force are the substitutions whose path could be downloaded. -/
  substitutions : wet.substitutions = dry.substitutions.filter fun _ replacement =>
    cache.downloads.get? replacement = some .fetched
  /-- The others are dropped. -/
  dropped : ∀ path, path ∈ wet.dropped ↔ ∃ replacement,
    dry.substitutions.get? path = some replacement ∧
      cache.downloads.get? replacement ≠ some .fetched
  /-- The file is written, unless no substitution is left or writing fails. -/
  written : wet.written = true ↔ wet.substitutions.isEmpty = false ∧ wet.error = none
  /-- A dry run tells of files with substitutions only. -/
  nonempty : dry.substitutions.isEmpty = false

/-- Every path that a dry run tells of could be downloaded, and every file could be written. -/
structure WentWell (cache : Cache) (dry wet : PackageSummary) : Prop where
  fetched : ∀ report ∈ dry.files, ∀ path replacement,
    report.substitutions.get? path = some replacement →
      cache.downloads.get? replacement = some .fetched
  written : ∀ report ∈ wet.files, report.error = none

/-- What the summary of a dry run foretells of the summary of a pass that writes. -/
structure PackageSummary.Foretells (cache : Cache) (dry wet : PackageSummary) : Prop where
  package : dry.package = wet.package
  dir : dry.dir = wet.dir
  library : dry.library = wet.library
  pins : dry.pins = wet.pins
  kept : dry.kept = wet.kept
  skipped : dry.skipped = wet.skipped
  files : List.Forall₂ (FileReport.Foretells cache) dry.files wet.files
  /-- If everything went well, both have the same substitutions in the same files and count alike. -/
  alike : WentWell cache dry wet →
    dry.files.map (fun report => (report.file, report.substitutions)) =
        wet.files.map (fun report => (report.file, report.substitutions)) ∧
      dry.filesChanged = wet.filesChanged ∧ dry.importsChanged = wet.importsChanged

/-- A dry run and a pass that writes end alike. -/
inductive Foretold (cache : Cache) :
    Except PassError Outcome → Except PassError Outcome → Prop
  | failed (e : PassError) : Foretold cache (.error e) (.error e)
  | nothing : Foretold cache (.ok .nothing) (.ok .nothing)
  | aborted : Foretold cache (.ok .aborted) (.ok .aborted)
  | committed {dry wet : PackageSummary} :
      dry.Foretells cache wet → Foretold cache (.ok (.committed dry)) (.ok (.committed wet))

/-! ## One file -/

/-- What a commit that writes reports is read off its substitutions and its error. -/
theorem written_commit (tools : Collaborators σ) (verbose : Bool) (file : SourceFile)
    {subs : Dictionary String} (hsubs : subs.isEmpty = false) (s : Session σ) :
    let report := (commit tools false verbose file subs s).1
    (report.substitutions = subs.filter fun path _ => !report.dropped.contains path) ∧
      (report.written = true ↔ report.substitutions.isEmpty = false ∧ report.error = none) := by
  intro report
  have hreport : report = (commit tools false verbose file subs s).1 := rfl
  -- Either nothing is left to be written, or the report tells how the writing ended.
  rcases commit_cases tools verbose file hsubs s with ⟨hlost, hcommit⟩ | ⟨hlive, t, -, -, hcommit⟩
  · rw [hcommit] at hreport
    rw [hreport]
    refine ⟨(eq_empty_of_isEmpty hlost).symm, ?_⟩
    simp only [Bool.false_eq_true, false_iff, not_and]
    intro h
    exact absurd h (by decide)
  · rw [hcommit] at hreport
    rw [hreport]
    refine ⟨by rw [reportOf_substitutions, reportOf_dropped], ?_⟩
    cases (write tools file _ t).1 with
    | ok _ => simp only [reportOf, hlive, and_self]
    | error message => simp [reportOf]

/-- A report that settles its file is foretold by the substitutions that were selected. -/
theorem foretells_of_settles {file : SourceFile} {subs : Dictionary String} {cache : Cache}
    {wet : FileReport} (hsubs : subs.isEmpty = false) (hsettles : Settles false file subs cache wet)
    (hlive : wet.substitutions = subs.filter fun path _ => !wet.dropped.contains path)
    (hwritten : wet.written = true ↔ wet.substitutions.isEmpty = false ∧ wet.error = none) :
    FileReport.Foretells cache { file := file.path, substitutions := subs } wet where
  file := hsettles.reports.file.symm
  substitutions := by
    rw [hlive]
    -- A path is dropped just where the cache does not hold it as downloaded.
    apply Dictionary.filter_congr
    intro path replacement hsub
    rw [Bool.eq_iff_iff, Bool.not_eq_true', List.contains_eq_mem, decide_eq_false_iff_not,
      hsettles.dropped, decide_eq_true_eq]
    constructor
    · intro hkept
      by_contra hlost
      exact hkept ⟨replacement, hsub, fun h => hlost (h rfl)⟩
    · rintro hfetched ⟨other, hother, hlost⟩
      rw [hsub, Option.some.injEq] at hother
      exact hlost fun _ => hother ▸ hfetched
  dropped path := by
    rw [hsettles.dropped]
    apply exists_congr
    intro replacement
    apply and_congr_right
    intro _
    simp only [Available, true_imp_iff, ne_eq]
  written := hwritten
  nonempty := hsubs

/-! ## All files of a package -/

/-- The reports of a dry run foretell those of a pass that writes, whatever has been told before. -/
theorem commitAll_foretells (tools : Collaborators σ) (options : Options) (pins : Dictionary String)
    (disabled : StringSet) (files : List SourceFile) (s t : Session σ) :
    List.Forall₂ (FileReport.Foretells
        (commitAll tools { options with dryRun := false } pins disabled files t).2.cache)
      (commitAll tools { options with dryRun := true } pins disabled files s).1
      (commitAll tools { options with dryRun := false } pins disabled files t).1 := by
  induction files generalizing s t with
  | nil => exact .nil
  | cons file rest ih =>
    rw [commitAll, commitAll]
    split
    · exact ih s t
    · rename_i hsubs
      rw [Bool.not_eq_true] at hsubs
      rw [run_bind, run_bind, run_bind, run_bind]
      -- What is downloaded for the later files does not change what the first report settles.
      obtain ⟨hgrows, -⟩ := commitAll_spec tools { options with dryRun := false } pins disabled rest
        (commit tools false options.verbose file
          (Imports.substitutions pins disabled file.source.imports) t).2
      have hsettles := (commit_settles tools false options.verbose file
        (Imports.substitutions pins disabled file.source.imports) t).mono hgrows
      obtain ⟨hlive, hwritten⟩ := written_commit tools options.verbose file hsubs t
      apply List.Forall₂.cons
      · rw [commit_dryRun tools options.verbose file hsubs]
        exact foretells_of_settles hsubs hsettles hlive hwritten
      · exact ih _ _

theorem FileReport.Foretells.substitutions_eq {cache : Cache} {dry wet : FileReport}
    (h : dry.Foretells cache wet) (hfetched : ∀ path replacement,
      dry.substitutions.get? path = some replacement →
        cache.downloads.get? replacement = some .fetched) :
    wet.substitutions = dry.substitutions := by
  rw [h.substitutions]
  apply Dictionary.filter_eq_self
  intro path replacement hsub
  exact decide_eq_true (hfetched path replacement hsub)

/-- The counts of reports that all count are read off their substitutions. -/
theorem summarize_of_counts (options : Options) (package : Package) (analysis : Analysis)
    (choices : Choices) {reports : List FileReport}
    (h : ∀ report ∈ reports, report.counts options.dryRun = true) :
    (summarize options package analysis choices reports).filesChanged = reports.length ∧
      (summarize options package analysis choices reports).importsChanged =
        (reports.map fun report => (report.file, report.substitutions)).foldl
          (fun n entry => n + entry.2.size) 0 := by
  have hall : reports.filter (FileReport.counts options.dryRun) = reports :=
    List.filter_eq_self.2 h
  constructor
  · rw [summarize, hall]
  · rw [summarize, hall, List.foldl_map]

/-- Where everything went well a report and the one that foretells it agree, and both count. -/
theorem FileReport.Foretells.alike {cache : Cache} {dry wet : FileReport}
    (h : dry.Foretells cache wet) (hfetched : ∀ path replacement,
      dry.substitutions.get? path = some replacement →
        cache.downloads.get? replacement = some .fetched) (herror : wet.error = none) :
    (dry.file, dry.substitutions) = (wet.file, wet.substitutions) ∧
      dry.counts true = true ∧ wet.counts false = true := by
  have hsubs := h.substitutions_eq hfetched
  have hwritten : wet.written = true := h.written.2 ⟨hsubs ▸ h.nonempty, herror⟩
  refine ⟨?_, ?_, ?_⟩
  · rw [h.file, hsubs]
  · simp [FileReport.counts, h.nonempty]
  · simp [FileReport.counts, hwritten]

/-- Where everything went well, reports agree with those that foretell them, and all of them count. -/
theorem foretold_reports_alike {cache : Cache} {dry wet : List FileReport}
    (h : List.Forall₂ (FileReport.Foretells cache) dry wet)
    (hfetched : ∀ report ∈ dry, ∀ path replacement,
      report.substitutions.get? path = some replacement →
        cache.downloads.get? replacement = some .fetched)
    (herror : ∀ report ∈ wet, report.error = none) :
    dry.map (fun report => (report.file, report.substitutions)) =
        wet.map (fun report => (report.file, report.substitutions)) ∧
      (∀ report ∈ dry, report.counts true = true) ∧
      ∀ report ∈ wet, report.counts false = true := by
  induction h with
  | nil => simp
  | cons hfirst _ ih =>
    rw [List.forall_mem_cons] at hfetched herror
    obtain ⟨hsame, hdry, hwet⟩ := hfirst.alike hfetched.1 herror.1
    obtain ⟨hrest, hdries, hwets⟩ := ih hfetched.2 herror.2
    refine ⟨?_, ?_, ?_⟩
    · rw [List.map_cons, List.map_cons, hsame, hrest]
    · exact List.forall_mem_cons.2 ⟨hdry, hdries⟩
    · exact List.forall_mem_cons.2 ⟨hwet, hwets⟩

theorem summarize_foretells (options : Options) (package : Package) (analysis : Analysis)
    (choices : Choices) {cache : Cache} {dry wet : List FileReport}
    (h : List.Forall₂ (FileReport.Foretells cache) dry wet) :
    (summarize { options with dryRun := true } package analysis choices dry).Foretells cache
      (summarize { options with dryRun := false } package analysis choices wet) where
  package := rfl
  dir := rfl
  library := rfl
  pins := rfl
  kept := rfl
  skipped := rfl
  files := h
  alike := by
    rintro ⟨hfetched, herror⟩
    obtain ⟨hsame, hdry, hwet⟩ := foretold_reports_alike h hfetched herror
    obtain ⟨hfiles, himports⟩ :=
      summarize_of_counts { options with dryRun := true } package analysis choices hdry
    obtain ⟨hfiles', himports'⟩ :=
      summarize_of_counts { options with dryRun := false } package analysis choices hwet
    refine ⟨hsame, ?_, ?_⟩
    · rw [hfiles, hfiles', h.length_eq]
    · rw [himports, himports', hsame]

/-! ## A whole pass -/

/-- Whether the run is dry does not matter for the choices. -/
theorem choose_dryRun (tools : Collaborators σ) (options : Options) (dryRun : Bool)
    (package : String) (pairs : List (String × Registry.Record)) :
    ∀ choices, choose tools { options with dryRun := dryRun } package pairs choices =
      choose tools options package pairs choices := by
  induction pairs with
  | nil => exact fun _ => rfl
  | cons pair rest ih =>
    intro choices
    obtain ⟨key, record⟩ := pair
    rw [choose, choose]
    simp only [ih]

theorem pinEligible_foretold (tools : Collaborators σ) (options : Options) (package : Package)
    (analysis : Analysis) (s : Session σ) :
    Foretold (pinEligible tools { options with dryRun := false } package analysis s).2.cache
      (pinEligible tools { options with dryRun := true } package analysis s).1
      (pinEligible tools { options with dryRun := false } package analysis s).1 := by
  unfold pinEligible
  -- Up to the commits both passes do the same, so they part only there.
  simp only [choose_dryRun, run_bind]
  generalize resolve tools (analysis.keys.map Registry.Request.latest) s = reply
  obtain ⟨failure | records, s₁⟩ := reply
  · exact .failed _
  · simp only [run_bind]
    generalize choose tools options package.name (analysis.keys.zip records) { } s₁ = chosen
    obtain ⟨e | _ | choices, s₂⟩ := chosen
    · exact .failed _
    · exact .aborted
    · simp only
      split
      · exact .committed (summarize_foretells options package analysis choices .nil)
      · apply Foretold.committed
        apply summarize_foretells
        exact commitAll_foretells tools options choices.pins analysis.disabled package.files s₂ s₂

theorem onPackage_foretold (tools : Collaborators σ) (options : Options) (package : Package)
    (s : Session σ) :
    Foretold (onPackage tools { options with dryRun := false } package s).2.cache
      (onPackage tools { options with dryRun := true } package s).1
      (onPackage tools { options with dryRun := false } package s).1 := by
  unfold onPackage
  simp only [run_bind]
  generalize analyze tools package.files s = judged
  obtain ⟨analysis, s₁⟩ := judged
  simp only
  split
  · exact .nothing
  split
  · exact pinEligible_foretold tools options package analysis _
  · exact pinEligible_foretold tools options package analysis _

/-- **A dry run touches nothing and tells the truth.** It leaves the files as they are, and it comes
out the same whatever the downloader does. A pass that writes, from the same session, ends in the same
way: with the same failure, with nothing to do, aborted, or with a commit that has the same choices,
kept imports and skipped repositories, and reports on the same files in the same order. If each path
that the dry run tells of could be downloaded and every file could be written, both tell of the same
substitutions and count the same files and imports. -/
theorem onDirectory_dryRun (tools : Collaborators σ) (options : Options) (dir : String)
    (s : Session σ) :
    let dry := onDirectory tools { options with dryRun := true } dir s
    let wet := onDirectory tools { options with dryRun := false } dir s
    dry.2.files = s.files ∧
      (∀ downloader, onDirectory (tools.withDownloader downloader)
        { options with dryRun := true } dir s = dry) ∧
      Foretold wet.2.cache dry.1 wet.1 := by
  intro dry wet
  -- The first two parts are about the dry run alone, the third about both passes.
  have hharmless : Harmless
      (fun tools => onDirectory tools { options with dryRun := true } dir) tools :=
    harmless_onDirectory rfl dir
  obtain ⟨hfiles, hdownloader⟩ := hharmless
  refine ⟨hfiles s, fun downloader => congrFun (hdownloader downloader) s, ?_⟩
  change Foretold (onDirectory _ _ _ _).2.cache (onDirectory _ _ _ _).1 (onDirectory _ _ _ _).1
  simp only [onDirectory_eq]
  rcases Package.load s.files dir with cause | ⟨_ | package, notices⟩
  · exact .failed _
  · exact .nothing
  · exact onPackage_foretold tools options package _

end PinnedImports.Pass
