import Mathlib.Data.List.Forall2
import PinnedImports.Proofs.Pass.Atomicity
import PinnedImports.Proofs.Pass.Substitutions

/-!
# Downloads and what becomes of a path

A run asks for no download twice, however the answers change (`Logged`). So what becomes of an import
path that was selected in several files of a package is settled by one answer: it is substituted in
all of these files, or dropped in all of them (`run_unanimous`). The reports are made one after the
other while the cache grows; each of them says at any later time what the cache says then
(`Settles.mono`).
-/

set_option autoImplicit false

namespace PinnedImports.Pass

open Session

variable {σ : Type}

/-! ## The log of the downloads -/

/-- The collaborators with every path that is downloaded written down behind the world's state. -/
def Collaborators.logging (tools : Collaborators σ) : Collaborators (σ × List String) where
  palette := tools.palette
  registry requests world :=
    ((tools.registry requests world.1).1, (tools.registry requests world.1).2, world.2)
  names root path world :=
    ((tools.names root path world.1).1, (tools.names root path world.1).2, world.2)
  downloader root path world :=
    ((tools.downloader root path world.1).1, (tools.downloader root path world.1).2,
      world.2 ++ [path])
  gate prompt world :=
    ((tools.gate prompt world.1).1, (tools.gate prompt world.1).2, world.2)
  disk path world :=
    ((tools.disk path world.1).1, (tools.disk path world.1).2, world.2)

/-- The session with a log of downloads. -/
def Session.withLog (log : List String) (s : Session σ) : Session (σ × List String) where
  files := s.files
  transcript := s.transcript
  cache := s.cache
  world := (s.world, log)

/-- The second session is the first with a log of downloads, in which no path occurs twice and every
path has an outcome in the cache. -/
def Logged (s : Session σ) (t : Session (σ × List String)) : Prop :=
  ∃ log : List String, t = s.withLog log ∧ log.Nodup ∧
    ∀ path ∈ log, ∃ outcome, s.cache.downloads.get? path = some outcome

theorem downloads_resolve (tools : Collaborators σ) (requests : List Registry.Request)
    (s : Session σ) : (resolve tools requests s).2.cache.downloads = s.cache.downloads := by
  unfold resolve Cache.resolve
  simp only
  split
  · rfl
  · generalize tools.registry _ s.world = reply
    obtain ⟨failure | records, world⟩ := reply
    · rfl
    · simp only
      split <;> rfl

theorem logged_resolve (tools : Collaborators σ) (requests : List Registry.Request) :
    Simulates Logged (resolve tools requests) (resolve tools.logging requests) := by
  rintro s _ ⟨log, rfl, hnodup, hknown⟩
  have hsame : resolve tools.logging requests (s.withLog log) =
      ((resolve tools requests s).1, (resolve tools requests s).2.withLog log) := by
    unfold resolve
    simp only [withLog]
    rw [Cache.resolve_map (fun world => (world, log)) fun _ _ => rfl]
  rw [hsame]
  refine ⟨rfl, log, rfl, hnodup, ?_⟩
  rw [downloads_resolve]
  exact hknown

theorem logged_download (tools : Collaborators σ) (path : String) :
    Simulates Logged (download tools path) (download tools.logging path) := by
  rintro s _ ⟨log, rfl, hnodup, hknown⟩
  unfold download Cache.download
  simp only [withLog]
  cases hcached : s.cache.downloads.get? path with
  | some outcome => exact ⟨rfl, log, rfl, hnodup, hknown⟩
  | none =>
    -- A path without an outcome is not in the log yet, and gets its outcome now.
    refine ⟨rfl, log ++ [path], rfl, ?_, ?_⟩
    · rw [List.nodup_append]
      refine ⟨hnodup, List.pairwise_singleton _ path, ?_⟩
      rintro other hother _ hlast rfl
      obtain ⟨outcome, houtcome⟩ := hknown other hother
      rw [List.mem_singleton.1 hlast, hcached] at houtcome
      simp at houtcome
    · intro other hother
      simp only
      rw [Dictionary.get?_insert]
      split
      · exact ⟨_, rfl⟩
      · rename_i hne
        rcases List.mem_append.1 hother with hother | hlast
        · exact hknown other hother
        · exact absurd (List.mem_singleton.1 hlast) hne

theorem related_logged (tools : Collaborators σ) : Related Logged tools tools.logging where
  palette := rfl
  files := by
    rintro s _ ⟨log, rfl, -⟩
    rfl
  told := by
    rintro more s _ ⟨log, rfl, hlog⟩
    exact ⟨rfl, log, rfl, hlog⟩
  lookup := by
    rintro path s _ ⟨log, rfl, hlog⟩
    exact ⟨rfl, log, rfl, hlog⟩
  resolve := logged_resolve tools
  download := logged_download tools
  ask := by
    rintro prompt s _ ⟨log, rfl, hlog⟩
    exact ⟨rfl, log, rfl, hlog⟩
  refusals := by
    rintro path s _ ⟨log, rfl, hlog⟩
    exact ⟨rfl, log, rfl, hlog⟩
  exchange := by
    rintro s _ files ⟨log, rfl, hlog⟩
    exact ⟨log, rfl, hlog⟩

/-- **No path is downloaded twice in a run**, and writing the downloads down changes nothing else. -/
theorem exists_log (tools : Collaborators σ) (options : Options) (dirs : List String)
    (s : Session σ) :
    ∃ log : List String, log.Nodup ∧ run tools.logging options dirs (s.withLog []) =
      ((run tools options dirs s).1, (run tools options dirs s).2.withLog log) := by
  obtain ⟨hsummary, log, hlast, hnodup, -⟩ :=
    (related_logged tools).run options dirs s (s.withLog []) ⟨[], rfl, .nil, by simp⟩
  exact ⟨log, hnodup, Prod.ext hsummary.symm hlast⟩

/-! ## What a report settles -/

/-- Whether a substitution is in force: outside of a dry run its path has been downloaded. -/
def Available (dryRun : Bool) (cache : Cache) (replacement : String) : Prop :=
  dryRun = false → cache.downloads.get? replacement = some .fetched

/-- A report settles every path that was selected in its file by what the cache says of the path that
takes its place, and it holds no other path. -/
structure Settles (dryRun : Bool) (file : SourceFile) (subs : Dictionary String) (cache : Cache)
    (report : FileReport) : Prop where
  reports : Reports dryRun file subs cache report
  dropped : ∀ path, path ∈ report.dropped ↔ ∃ replacement,
    subs.get? path = some replacement ∧ ¬ Available dryRun cache replacement

/-- A path with an outcome has no other outcome later. -/
theorem available_iff_of_grows {dryRun : Bool} {cache later : Cache} {replacement : String}
    (hknown : dryRun = false → ∃ outcome, cache.downloads.get? replacement = some outcome)
    (hgrows : cache.Grows later) :
    Available dryRun cache replacement ↔ Available dryRun later replacement := by
  constructor
  · intro h hdry
    exact hgrows.downloads _ _ (h hdry)
  · intro h hdry
    obtain ⟨outcome, houtcome⟩ := hknown hdry
    have hlater := hgrows.downloads _ _ houtcome
    rw [h hdry] at hlater
    rw [houtcome, hlater]

/-- **Later downloads do not change what a report settles.** -/
theorem Settles.mono {dryRun : Bool} {file : SourceFile} {subs : Dictionary String}
    {cache later : Cache} {report : FileReport} (h : Settles dryRun file subs cache report)
    (hgrows : cache.Grows later) : Settles dryRun file subs later report where
  reports := h.reports.mono hgrows
  dropped path := by
    rw [h.dropped]
    apply exists_congr
    intro replacement
    apply and_congr_right
    intro hsub
    rw [available_iff_of_grows (fun hdry => h.reports.known path replacement hdry hsub) hgrows]

/-- A commit downloads first, and keeps the list of what could not be downloaded. -/
theorem commit_eq_undownloadable (tools : Collaborators σ) (verbose : Bool) (file : SourceFile)
    {subs : Dictionary String} (hsubs : subs.isEmpty = false) (s : Session σ) :
    (commit tools false verbose file subs s).1.dropped =
        (undownloadable tools subs.entries s).1 ∧
      (commit tools false verbose file subs s).2.cache =
        (undownloadable tools subs.entries s).2.cache := by
  rcases commit_cases tools verbose file hsubs s with ⟨-, hcommit⟩ | ⟨-, t, -, hcache, hcommit⟩
  · rw [hcommit]
    exact ⟨rfl, rfl⟩
  · rw [hcommit]
    exact ⟨reportOf_dropped .., (cache_write tools file _ t).trans hcache⟩

/-- **A commit settles every path that was selected in its file.** -/
theorem commit_settles (tools : Collaborators σ) (dryRun verbose : Bool) (file : SourceFile)
    (subs : Dictionary String) (s : Session σ) :
    Settles dryRun file subs (commit tools dryRun verbose file subs s).2.cache
      (commit tools dryRun verbose file subs s).1 := by
  obtain ⟨-, hreports⟩ := commit_spec tools dryRun verbose file subs s
  refine ⟨hreports, fun path => ?_⟩
  cases hsubs : subs.isEmpty with
  | true =>
    have hnone : (commit tools dryRun verbose file subs s).1.dropped = [] := by
      rw [commit, if_pos hsubs]
      rfl
    rw [hnone]
    simp [Dictionary.isEmpty_iff.1 hsubs]
  | false =>
    cases dryRun with
    | true =>
      have hnone : (commit tools true verbose file subs s).1.dropped = [] := by
        rw [commit, if_neg (by simp [hsubs]), if_pos rfl]
        rfl
      rw [hnone]
      simp [Available]
    | false =>
      obtain ⟨hlist, hcache⟩ := commit_eq_undownloadable tools verbose file hsubs s
      obtain ⟨-, -, hdropped⟩ := undownloadable_spec tools subs.entries s
      rw [hlist, hdropped, hcache]
      apply exists_congr
      intro replacement
      constructor
      · rintro ⟨message, hmem, hfailed⟩
        refine ⟨Dictionary.mem_entries.1 hmem, fun havailable => ?_⟩
        rw [havailable rfl] at hfailed
        simp at hfailed
      · rintro ⟨hsub, hlost⟩
        obtain ⟨outcome, houtcome⟩ := hreports.known path replacement rfl hsub
        rw [hcache] at houtcome
        cases outcome with
        | fetched => exact absurd (fun _ => houtcome) hlost
        | failed message => exact ⟨message, Dictionary.mem_entries.2 hsub, houtcome⟩

/-- The reports of a pass settle the files with a substitution, one after the other. -/
theorem commitAll_settles (tools : Collaborators σ) (options : Options) (pins : Dictionary String)
    (disabled : StringSet) (files : List SourceFile) (s : Session σ) :
    List.Forall₂ (fun file report => Settles options.dryRun file
        (Imports.substitutions pins disabled file.source.imports)
        (commitAll tools options pins disabled files s).2.cache report)
      (files.filter fun file =>
        !(Imports.substitutions pins disabled file.source.imports).isEmpty)
      (commitAll tools options pins disabled files s).1 := by
  induction files generalizing s with
  | nil => exact .nil
  | cons file rest ih =>
    rw [commitAll, List.filter_cons]
    split
    · rename_i hempty
      rw [if_neg (by simp [hempty])]
      exact ih s
    · rename_i hempty
      rw [if_pos (by simpa using hempty), run_bind, run_bind]
      have hlater := ih (commit tools options.dryRun options.verbose file
        (Imports.substitutions pins disabled file.source.imports) s).2
      obtain ⟨hgrows, -⟩ := commitAll_spec tools options pins disabled rest (commit tools
        options.dryRun options.verbose file
        (Imports.substitutions pins disabled file.source.imports) s).2
      exact .cons ((commit_settles tools _ _ file _ s).mono hgrows) hlater

/-- A selected path is substituted or dropped, and the cache tells which. -/
theorem Settles.substituted_or_dropped {dryRun : Bool} {file : SourceFile}
    {subs : Dictionary String} {cache : Cache} {report : FileReport}
    (h : Settles dryRun file subs cache report) {path replacement : String}
    (hsub : subs.get? path = some replacement) :
    (Available dryRun cache replacement ∧ report.substitutions.get? path = some replacement ∧
        path ∉ report.dropped) ∨
      (¬ Available dryRun cache replacement ∧ report.substitutions.get? path = none ∧
        path ∈ report.dropped) := by
  by_cases havailable : Available dryRun cache replacement
  · refine .inl ⟨havailable, (h.reports.substitutions _ _).2 ⟨hsub, havailable⟩, fun hmem => ?_⟩
    obtain ⟨other, hother, hlost⟩ := (h.dropped path).1 hmem
    rw [hsub, Option.some.injEq] at hother
    exact hlost (hother ▸ havailable)
  · refine .inr ⟨havailable, ?_, (h.dropped path).2 ⟨replacement, hsub, havailable⟩⟩
    rw [Option.eq_none_iff_forall_ne_some]
    intro other hother
    obtain ⟨hsame, hfetched⟩ := (h.reports.substitutions path other).1 hother
    rw [hsub, Option.some.injEq] at hsame
    exact havailable (hsame ▸ hfetched)

/-! ## All files of a package -/

/-- The reports of some files: each file with a selected path has one, in which exactly its selected
paths are substituted or dropped. Two files that have selected the same path agree on it. -/
structure Unanimous (selected : SourceFile → Dictionary String) (files : List SourceFile)
    (reports : List FileReport) : Prop where
  each : List.Forall₂ (fun file report => report.file = file.path ∧ ∀ path,
      (selected file).contains path = true ↔
        report.substitutions.contains path = true ∨ path ∈ report.dropped)
    (files.filter fun file => !(selected file).isEmpty) reports
  agree : ∀ entry ∈ (files.filter fun file => !(selected file).isEmpty).zip reports,
    ∀ other ∈ (files.filter fun file => !(selected file).isEmpty).zip reports, ∀ path,
      (selected entry.1).contains path = true → (selected other.1).contains path = true →
        (∃ replacement, entry.2.substitutions.get? path = some replacement ∧
          other.2.substitutions.get? path = some replacement ∧
          path ∉ entry.2.dropped ∧ path ∉ other.2.dropped) ∨
        (path ∈ entry.2.dropped ∧ path ∈ other.2.dropped ∧
          entry.2.substitutions.get? path = none ∧ other.2.substitutions.get? path = none)

theorem unanimous_of_settles {dryRun : Bool} {pins : Dictionary String} {disabled : StringSet}
    {files : List SourceFile} {cache : Cache} {reports : List FileReport}
    (h : List.Forall₂ (fun file report => Settles dryRun file
        (Imports.substitutions pins disabled file.source.imports) cache report)
      (files.filter fun file =>
        !(Imports.substitutions pins disabled file.source.imports).isEmpty) reports) :
    Unanimous (fun file => Imports.substitutions pins disabled file.source.imports) files
      reports where
  each := by
    refine h.imp fun file report hsettles => ⟨hsettles.reports.file, fun path => ?_⟩
    rw [Dictionary.contains_iff, Dictionary.contains_iff]
    constructor
    · rintro ⟨replacement, hsub⟩
      rcases hsettles.substituted_or_dropped hsub with ⟨-, hget, -⟩ | ⟨-, -, hmem⟩
      · exact .inl ⟨replacement, hget⟩
      · exact .inr hmem
    · rintro (⟨replacement, hget⟩ | hmem)
      · exact ⟨replacement, ((hsettles.reports.substitutions path replacement).1 hget).1⟩
      · obtain ⟨replacement, hsub, -⟩ := (hsettles.dropped path).1 hmem
        exact ⟨replacement, hsub⟩
  agree := by
    intro entry hentry other hother path hselected hselected'
    have hsettles := List.forall₂_zip h hentry
    have hsettles' := List.forall₂_zip h hother
    obtain ⟨replacement, hsub⟩ := Dictionary.contains_iff.1 hselected
    obtain ⟨replacement', hsub'⟩ := Dictionary.contains_iff.1 hselected'
    -- The path that takes the place of another does not depend on the file.
    have hsame : replacement' = replacement := by
      have hfirst := (Imports.get?_substitutions.1 hsub).2
      rw [(Imports.get?_substitutions.1 hsub').2, Option.some.injEq] at hfirst
      exact hfirst
    subst hsame
    rcases hsettles.substituted_or_dropped hsub with ⟨hyes, hget, hnot⟩ | ⟨hno, hget, hmem⟩
    · rcases hsettles'.substituted_or_dropped hsub' with ⟨-, hget', hnot'⟩ | ⟨hno', -⟩
      · exact .inl ⟨replacement', hget, hget', hnot, hnot'⟩
      · exact absurd hyes hno'
    · rcases hsettles'.substituted_or_dropped hsub' with ⟨hyes', -⟩ | ⟨-, hget', hmem'⟩
      · exact absurd hyes' hno
      · exact .inr ⟨hmem, hmem', hget, hget'⟩

theorem substitutions_isEmpty_of_isEmpty {pins : Dictionary String} (h : pins.isEmpty = true)
    (disabled : StringSet) (imports : List Go.Import) :
    (Imports.substitutions pins disabled imports).isEmpty = true := by
  rw [Dictionary.isEmpty_iff]
  intro path
  rw [Option.eq_none_iff_forall_ne_some]
  intro replacement hget
  obtain ⟨-, repository, pinned, -, hpinned, -⟩ :=
    Imports.substitute?_eq_some.1 (Imports.get?_substitutions.1 hget).2
  rw [Dictionary.isEmpty_iff.1 h] at hpinned
  simp at hpinned

theorem pinEligible_unanimous {tools : Collaborators σ} {options : Options} {package : Package}
    {analysis : Analysis} {s : Session σ} {summary : PackageSummary}
    (h : (pinEligible tools options package analysis s).1 = .ok (.committed summary)) :
    Unanimous (fun file => Imports.substitutions summary.pins analysis.disabled
      file.source.imports) package.files summary.files := by
  unfold pinEligible at h
  rw [run_bind] at h
  generalize resolve tools (analysis.keys.map Registry.Request.latest) s = reply at h
  obtain ⟨failure | records, s₁⟩ := reply
  · simp [run_pure] at h
  simp only at h
  rw [run_bind] at h
  generalize choose tools options package.name (analysis.keys.zip records) { } s₁ = chosen at h
  obtain ⟨e | _ | choices, s₂⟩ := chosen
  · simp [run_pure] at h
  · simp [run_pure] at h
  simp only at h
  split at h
  · rename_i hempty
    rw [run_bind, run_pure, run_pure, Except.ok.injEq, Outcome.committed.injEq] at h
    subst h
    -- Without a pin no file has a selected path, and there is no report.
    have hnone : (package.files.filter fun file => !(Imports.substitutions choices.pins
        analysis.disabled file.source.imports).isEmpty) = [] := by
      rw [List.filter_eq_nil_iff]
      intro file _
      simp [substitutions_isEmpty_of_isEmpty hempty]
    have hsettles : List.Forall₂ (fun file report => Settles options.dryRun file
        (Imports.substitutions choices.pins analysis.disabled file.source.imports) s₂.cache report)
        (package.files.filter fun file => !(Imports.substitutions choices.pins
          analysis.disabled file.source.imports).isEmpty) [] := by
      rw [hnone]
      exact .nil
    exact unanimous_of_settles hsettles
  · rw [run_bind, run_pure, Except.ok.injEq, Outcome.committed.injEq] at h
    subst h
    exact unanimous_of_settles (commitAll_settles tools options choices.pins analysis.disabled
      package.files s₂)

/-- **The reports of a pass are unanimous.** -/
theorem onDirectory_unanimous {tools : Collaborators σ} {options : Options} {dir : String}
    {s : Session σ} {summary : PackageSummary}
    (h : (onDirectory tools options dir s).1 = .ok (.committed summary)) :
    ∃ package notices, Package.load s.files dir = .ok (some package, notices) ∧
      Unanimous (fun file => Imports.substitutions summary.pins
        (analyze tools package.files (notify tools notices s).2).1.disabled file.source.imports)
        package.files summary.files := by
  rw [onDirectory_eq] at h
  rcases hload : Package.load s.files dir with cause | ⟨_ | package, notices⟩
  · rw [hload] at h
    simp at h
  · rw [hload] at h
    simp at h
  rw [hload] at h
  simp only at h
  refine ⟨package, notices, rfl, ?_⟩
  unfold onPackage at h
  rw [run_bind, run_bind] at h
  split at h
  · simp [run_pure] at h
  split at h
  · rw [run_bind] at h
    exact pinEligible_unanimous h
  · exact pinEligible_unanimous h

theorem Visits.pass_of_mem {tools : Collaborators σ} {options : Options} {s last : Session σ}
    {visits : List (Visit σ)} (h : Visits tools options s visits last) {visit : Visit σ}
    (hvisit : visit ∈ visits) :
    onDirectory tools options visit.dir visit.before = (visit.result, visit.after) := by
  induction h with
  | done => simp at hvisit
  | visit hpass _ _ ih =>
    rcases List.mem_cons.1 hvisit with rfl | hvisit
    · exact hpass
    · exact ih hvisit

/-- **All or none.** However the answers of the downloader change, a run asks for no path twice, and
writing its downloads down changes nothing else. A run is a chain of passes, and in each that ends
with a commit the reports are unanimous: an import path that was selected in two files is substituted
by the same path in both, or dropped in both. -/
theorem run_unanimous (tools : Collaborators σ) (options : Options) (dirs : List String)
    (s : Session σ) :
    (∃ log : List String, log.Nodup ∧ run tools.logging options dirs (s.withLog []) =
      ((run tools options dirs s).1, (run tools options dirs s).2.withLog log)) ∧
    ∃ visits, Visits tools options s visits (run tools options dirs s).2 ∧
      (run tools options dirs s).1 = .ofVisits visits ∧
      ∀ visit ∈ visits, ∀ summary, visit.result = .ok (.committed summary) →
        ∃ package notices, Package.load visit.before.files visit.dir = .ok (some package, notices) ∧
          Unanimous (fun file => Imports.substitutions summary.pins
            (analyze tools package.files (notify tools notices visit.before).2).1.disabled
            file.source.imports) package.files summary.files := by
  refine ⟨exists_log tools options dirs s, ?_⟩
  obtain ⟨visits, hvisits, hsummary, -⟩ := exists_visits tools options dirs s
  refine ⟨visits, hvisits, hsummary, fun visit hvisit summary hresult => ?_⟩
  apply onDirectory_unanimous
  rw [hvisits.pass_of_mem hvisit, hresult]

end PinnedImports.Pass
