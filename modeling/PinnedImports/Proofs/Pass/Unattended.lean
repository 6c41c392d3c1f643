import PinnedImports.Proofs.Pass.CacheTransparency
import PinnedImports.Proofs.Pass.Downloads

/-!
# Passes without questions

When the services are fixed functions and nobody is asked, a pass is a function of the files: it pins
each eligible repository to the path that its record selects (`onPackage_unattended`), and in each file
it puts those substitutions into force whose path can be downloaded (`commit_unattended`).
-/

set_option autoImplicit false

namespace PinnedImports.Pass

open Session Registry

variable {γ : Type} {services : Services γ} {options : Options}

/-! ## Sound sessions -/

theorem Shares.refl {s : Session (Traffic γ)}
    (h : s.cache.Sound services.record services.outcome) : Shares services s s where
  files := rfl
  transcript := rfl
  operator := rfl
  prompts := rfl
  batches := List.sublistForall₂_iff.2
    ⟨_, List.forall₂_same.2 fun batch _ => List.Sublist.refl batch, List.Sublist.refl _⟩
  downloads := List.Sublist.refl _
  sound := h
  sound_small := h
  grows := .refl s.cache

/-- What a run does to a session keeps its cache sound. -/
theorem sound_of_simulates {α : Type} {m : StateM (Session (Traffic γ)) α}
    (hm : Simulates (Shares services) m m) {s : Session (Traffic γ)}
    (h : s.cache.Sound services.record services.outcome) :
    (m s).2.cache.Sound services.record services.outcome := (hm s s (.refl h)).2.sound

theorem sound_commit (verbose : Bool) (file : SourceFile) (subs : Dictionary String)
    {s : Session (Traffic γ)} (h : s.cache.Sound services.record services.outcome) :
    (commit services.tools false verbose file subs s).2.cache.Sound services.record
      services.outcome :=
  sound_of_simulates ((related_shares services).relatedOn.commit false verbose file trivial subs) h

/-! ## Choices -/

/-- Without questions each repository is pinned to the path that its record selects. -/
theorem choose_unattended {σ : Type} (tools : Collaborators σ) (package : String)
    (hinteractive : options.interactive = false) (pairs : List (String × Record))
    (hkeys : (pairs.map (·.1)).Nodup) (before : Choices)
    (hfresh : ∀ key ∈ pairs.map (·.1), before.pins.get? key = none) (s : Session σ) :
    ∃ after s', choose tools options package pairs before s = (.ok (some after), s') ∧
      Chosen options package pairs before after [] := by
  induction pairs generalizing before s with
  | nil => exact ⟨before, s, rfl, by simp, fun key path => by simp⟩
  | cons pair rest ih =>
    obtain ⟨key, record⟩ := pair
    rw [List.map_cons, List.nodup_cons] at hkeys
    have hrest : ∀ other ∈ rest.map (·.1), before.pins.get? other = none :=
      fun other hother => hfresh other (List.mem_cons_of_mem _ hother)
    rw [choose]
    cases hselect : select record (options.library.appliesTo package) options.preferRevisions with
    | skip reason =>
      obtain ⟨after, s', hrun, hchosen⟩ := ih hkeys.2 (before.skip key reason.message) hrest
        (notify tools (skipNotices options.verbose key reason) s).2
      refine ⟨after, s', hrun, hchosen.cons [] hkeys.1 (by simp) (get?_pins_of_not_pinned rfl ?_)⟩
      intro path hpin
      rw [hpin.1] at hselect
      simp at hselect
    | use path =>
      have htaken : ∀ other ∈ rest.map (·.1), (before.take key path).pins.get? other = none := by
        intro other hother
        rw [Choices.take, Dictionary.get?_insert, if_neg, hrest other hother]
        rintro rfl
        exact hkeys.1 hother
      obtain ⟨after, s', hrun, hchosen⟩ := ih hkeys.2 (before.take key path) htaken s
      refine ⟨after, s', ?_, hchosen.cons [] hkeys.1 (by simp)
        (get?_pins_take (hfresh key List.mem_cons_self) ⟨hselect, fun hyes => ?_⟩)⟩
      · simp only [if_neg (Bool.eq_false_iff.1 hinteractive)]
        exact hrun
      · rw [hinteractive] at hyes
        simp at hyes

/-! ## Commits -/

/-- The substitutions whose path can be downloaded. -/
def fetchable (outcome : String → Download) (subs : Dictionary String) : Dictionary String :=
  subs.filter fun _ replacement => outcome replacement = .fetched

theorem get?_fetchable {outcome : String → Download} {subs : Dictionary String}
    {path replacement : String} :
    (fetchable outcome subs).get? path = some replacement ↔
      subs.get? path = some replacement ∧ outcome replacement = .fetched := by
  rw [fetchable, Dictionary.get?_filter, decide_eq_true_eq]

/-- The substitutions that are left are those whose path can be downloaded. -/
theorem filter_undownloadable (subs : Dictionary String) {s : Session (Traffic γ)}
    (hsound : s.cache.Sound services.record services.outcome) :
    (subs.filter fun path _ =>
        !(undownloadable services.tools subs.entries s).1.contains path) =
      fetchable services.outcome subs := by
  have hafter := sound_of_simulates
    ((related_shares services).relatedOn.undownloadable subs.entries) hsound
  obtain ⟨-, hknown, hdropped⟩ := undownloadable_spec services.tools subs.entries s
  rw [live_eq hknown hdropped, fetchable]
  -- The cache tells the outcome for each entry, and as it is sound that is the fixed one.
  apply Dictionary.filter_congr
  intro path replacement hsub
  obtain ⟨outcome, houtcome⟩ := hknown _ (Dictionary.mem_entries.2 hsub)
  rw [houtcome, hafter.downloads replacement outcome houtcome]
  simp only [Option.some.injEq]

/-- What a commit does to the files, and what it tells of that. -/
structure Committed (outcome : String → Download) (file : SourceFile) (subs : Dictionary String)
    (before after : Storage.Node) (report : FileReport) : Prop where
  file_eq : report.file = file.path
  substitutions_eq : report.substitutions = fetchable outcome subs
  /-- The file has been written, or nothing has changed. -/
  effect : report.written = true ∧ (fetchable outcome subs).isEmpty = false ∧
      before.replaceText file.path (Imports.render file.text (fetchable outcome subs)
        file.source.imports) = .ok after ∨
    report.written = false ∧ after = before ∧
      ((fetchable outcome subs).isEmpty = true ∨ report.error ≠ none)

/-- **A commit writes the file with the substitutions whose path can be downloaded**, if there is one. -/
theorem commit_unattended (verbose : Bool) (file : SourceFile) {subs : Dictionary String}
    (hsubs : subs.isEmpty = false) {s : Session (Traffic γ)}
    (hsound : s.cache.Sound services.record services.outcome) :
    Committed services.outcome file subs s.files
      (commit services.tools false verbose file subs s).2.files
      (commit services.tools false verbose file subs s).1 := by
  have hfiles := keepsFiles_undownloadable services.tools subs.entries s
  have hlive := filter_undownloadable subs hsound
  rcases commit_cases services.tools verbose file hsubs s with
    ⟨hempty, hcommit⟩ | ⟨hnonempty, t, hsame, -, hcommit⟩
  · rw [hlive] at hempty
    rw [hcommit]
    exact ⟨rfl, (eq_empty_of_isEmpty hempty).symm, .inr ⟨rfl, hfiles, .inl hempty⟩⟩
  · rw [hlive] at hnonempty hcommit
    rw [hcommit, write_eq, hsame, hfiles]
    cases hreplace : s.files.replaceText file.path (Imports.render file.text
        (fetchable services.outcome subs) file.source.imports)
        (refusals services.tools file.path t).1 with
    | ok files =>
      -- What succeeds has not been refused, so it is what the tree alone admits.
      exact ⟨rfl, rfl, .inl ⟨rfl, hnonempty, (Storage.Node.replaceText_eq_ok_iff.1 hreplace).2⟩⟩
    | error cause =>
      refine ⟨rfl, rfl, .inr ⟨rfl, hsame.trans hfiles, .inr ?_⟩⟩
      exact Option.some_ne_none cause.message

/-- The files are written one after another, each with its substitutions if it has any. -/
inductive Written (live : SourceFile → Dictionary String) :
    List SourceFile → Storage.Node → Storage.Node → Prop
  | done {root : Storage.Node} : Written live [] root root
  | keep {file : SourceFile} {rest : List SourceFile} {before after : Storage.Node} :
      (live file).isEmpty = true → Written live rest before after →
        Written live (file :: rest) before after
  | write {file : SourceFile} {rest : List SourceFile} {before middle after : Storage.Node} :
      (live file).isEmpty = false →
        before.replaceText file.path (Imports.render file.text (live file) file.source.imports) =
            .ok middle →
          Written live rest middle after → Written live (file :: rest) before after

theorem fetchable_isEmpty {outcome : String → Download} {subs : Dictionary String}
    (h : subs.isEmpty = true) : (fetchable outcome subs).isEmpty = true := by
  rw [Dictionary.isEmpty_iff] at h ⊢
  intro path
  rw [Option.eq_none_iff_forall_ne_some]
  intro replacement hget
  rw [get?_fetchable, h] at hget
  simp at hget

/-- The substitutions that a pass puts into force in a file. -/
def liveIn (services : Services γ) (pins : Dictionary String) (disabled : StringSet)
    (file : SourceFile) : Dictionary String :=
  fetchable services.outcome (Imports.substitutions pins disabled file.source.imports)

theorem get?_liveIn {pins : Dictionary String} {disabled : StringSet} {file : SourceFile}
    {path new : String} :
    (liveIn services pins disabled file).get? path = some new ↔
      ((∃ spec ∈ file.source.imports, spec.path = path) ∧
        Imports.substitute? pins disabled path = some new) ∧ services.outcome new = .fetched := by
  rw [liveIn, get?_fetchable, Imports.get?_substitutions]

/-- **Without errors all files are written.** -/
theorem commitAll_written (hdryRun : options.dryRun = false) (pins : Dictionary String)
    (disabled : StringSet) (files : List SourceFile) {s : Session (Traffic γ)}
    (hsound : s.cache.Sound services.record services.outcome)
    (herror : ∀ report ∈ (commitAll services.tools options pins disabled files s).1,
      report.error = none) :
    Written (liveIn services pins disabled) files s.files
      (commitAll services.tools options pins disabled files s).2.files := by
  induction files generalizing s with
  | nil => exact .done
  | cons file rest ih =>
    rw [commitAll] at herror ⊢
    split at herror
    · rename_i hempty
      rw [if_pos hempty]
      exact .keep (fetchable_isEmpty hempty) (ih hsound herror)
    · rename_i hempty
      rw [if_neg hempty]
      rw [run_bind, run_bind] at herror ⊢
      rw [Bool.not_eq_true] at hempty
      rw [hdryRun] at herror ⊢
      have hcommitted := commit_unattended options.verbose file hempty hsound
      have hafter := sound_commit options.verbose file
        (Imports.substitutions pins disabled file.source.imports) hsound
      have hrest := ih hafter fun report hreport => herror report (List.mem_cons_of_mem _ hreport)
      rcases hcommitted.effect with ⟨-, hlive, hreplace⟩ | ⟨-, hfiles, hempty' | hfailed⟩
      · exact .write hlive hreplace hrest
      · rw [hfiles] at hrest
        exact .keep hempty' hrest
      · exact absurd (herror _ (List.mem_cons_self ..)) hfailed

/-- The substitutions that are in force in a file are reported. -/
theorem exists_report_of_live (hdryRun : options.dryRun = false) {pins : Dictionary String}
    {disabled : StringSet} {files : List SourceFile} {file : SourceFile} (hfile : file ∈ files)
    (hlive : (liveIn services pins disabled file).isEmpty = false) {s : Session (Traffic γ)}
    (hsound : s.cache.Sound services.record services.outcome) :
    ∃ report ∈ (commitAll services.tools options pins disabled files s).1,
      report.file = file.path ∧ report.substitutions = liveIn services pins disabled file := by
  induction files generalizing s with
  | nil => simp at hfile
  | cons first rest ih =>
    rw [commitAll]
    split
    · rename_i hempty
      rcases List.mem_cons.1 hfile with rfl | hrest
      · rw [liveIn, fetchable_isEmpty hempty] at hlive
        simp at hlive
      · exact ih hrest hsound
    · rename_i hempty
      rw [Bool.not_eq_true] at hempty
      rw [run_bind, run_bind, hdryRun]
      have hcommitted := commit_unattended options.verbose first hempty hsound
      rcases List.mem_cons.1 hfile with rfl | hrest
      · exact ⟨_, List.mem_cons_self, hcommitted.file_eq, hcommitted.substitutions_eq⟩
      · obtain ⟨report, hreport, hspec⟩ := ih hrest (sound_commit options.verbose first
          (Imports.substitutions pins disabled first.source.imports) hsound)
        exact ⟨report, List.mem_cons_of_mem _ hreport, hspec⟩

/-- Where no substitution is in force nothing is written. -/
theorem commitAll_idle (hdryRun : options.dryRun = false) {pins : Dictionary String}
    {disabled : StringSet} {files : List SourceFile}
    (hlive : ∀ file ∈ files, (liveIn services pins disabled file).isEmpty = true)
    {s : Session (Traffic γ)} (hsound : s.cache.Sound services.record services.outcome) :
    (commitAll services.tools options pins disabled files s).2.files = s.files ∧
      ∀ report ∈ (commitAll services.tools options pins disabled files s).1,
        report.written = false := by
  induction files generalizing s with
  | nil => exact ⟨rfl, fun report hreport => absurd hreport List.not_mem_nil⟩
  | cons file rest ih =>
    have hrest := @ih fun other hother => hlive other (List.mem_cons_of_mem _ hother)
    rw [commitAll]
    split
    · exact hrest hsound
    · rename_i hempty
      rw [Bool.not_eq_true] at hempty
      rw [run_bind, run_bind, hdryRun]
      have hcommitted := commit_unattended options.verbose file hempty hsound
      obtain ⟨hfiles, hreports⟩ := hrest (sound_commit options.verbose file
        (Imports.substitutions pins disabled file.source.imports) hsound)
      have hnone := hlive file (List.mem_cons_self ..)
      rcases hcommitted.effect with ⟨-, hlive', -⟩ | ⟨hwritten, hsame, -⟩
      · rw [liveIn, hlive'] at hnone
        simp at hnone
      · refine ⟨hfiles.trans hsame, fun report hreport => ?_⟩
        rcases List.mem_cons.1 hreport with rfl | hreport
        · exact hwritten
        · exact hreports report hreport

/-! ## Passes -/

/-- The registry has answered for all keys, and the pins are what the records select. -/
structure Pinned (services : Services γ) (options : Options) (package : String) (keys : List String)
    (pins : Dictionary String) : Prop where
  answered : ∀ key ∈ keys, ∃ record, services.record (.latest key) = .ok record
  get?_pins : ∀ key path, pins.get? key = some path ↔ key ∈ keys ∧ ∃ record,
    services.record (.latest key) = .ok record ∧
      select record (options.library.appliesTo package) options.preferRevisions = .use path

theorem mem_zip_records {keys : List String} {records : List Record}
    (h : (keys.map Request.latest).map services.record = records.map .ok) {key : String}
    {record : Record} :
    (key, record) ∈ keys.zip records ↔
      key ∈ keys ∧ services.record (.latest key) = .ok record := by
  induction keys generalizing records with
  | nil => simp
  | cons first rest ih =>
    cases records with
    | nil => simp at h
    | cons answer others =>
      rw [List.map_cons, List.map_cons, List.map_cons, List.cons.injEq] at h
      rw [List.zip_cons_cons, List.mem_cons, List.mem_cons, ih h.2, Prod.mk.injEq]
      constructor
      · rintro (⟨rfl, rfl⟩ | ⟨hkey, hrecord⟩)
        · exact ⟨.inl rfl, h.1⟩
        · exact ⟨.inr hkey, hrecord⟩
      · rintro ⟨rfl | hkey, hrecord⟩
        · rw [h.1, Except.ok.injEq] at hrecord
          exact .inl ⟨rfl, hrecord.symm⟩
        · exact .inr ⟨hkey, hrecord⟩

theorem commitAll_of_isEmpty {σ : Type} (tools : Collaborators σ) {pins : Dictionary String}
    (h : pins.isEmpty = true) (disabled : StringSet) (files : List SourceFile) (s : Session σ) :
    commitAll tools options pins disabled files s = ([], s) := by
  induction files with
  | nil => rfl
  | cons file rest ih =>
    rw [commitAll, if_pos (substitutions_isEmpty_of_isEmpty h disabled file.source.imports), ih]

/-- How a pass ends behind its judgement: it has failed with the registry, or it has committed all
files of the package with the selected paths. -/
def Commits (services : Services γ) (options : Options) (package : Package) (analysis : Analysis)
    (files : Storage.Node) (result : Except PassError Outcome × Session (Traffic γ)) : Prop :=
  (∃ failure, (analysis.keys.map Request.latest).mapM services.record = .error failure ∧
    result.1 = .error (.registry failure)) ∨
  ∃ (choices : Choices) (s : Session (Traffic γ)),
    Pinned services options package.name analysis.keys choices.pins ∧ s.files = files ∧
      s.cache.Sound services.record services.outcome ∧
      result =
        (let commits := commitAll services.tools options choices.pins analysis.disabled
          package.files s
        (.ok (.committed (summarize options package analysis choices commits.1)), commits.2))

theorem pinEligible_unattended (hinteractive : options.interactive = false) (package : Package)
    (analysis : Analysis) (s : Session (Traffic γ))
    (hsound : s.cache.Sound services.record services.outcome) :
    Commits services options package analysis s.files
      (pinEligible services.tools options package analysis s) := by
  have hafter := sound_of_simulates ((related_shares services).resolve
    (analysis.keys.map Request.latest)) hsound
  have hanswer : (resolve services.tools (analysis.keys.map Request.latest) s).1 =
      (analysis.keys.map Request.latest).mapM services.record := by
    rw [services.resolve_eq hsound]
  have hfiles := keepsFiles_resolve services.tools (analysis.keys.map Request.latest) s
  unfold pinEligible
  rw [run_bind]
  generalize resolve services.tools (analysis.keys.map Request.latest) s = reply
    at hafter hanswer hfiles
  obtain ⟨failure | records, s₀⟩ := reply
  · exact .inl ⟨failure, hanswer.symm, rfl⟩
  · right
    simp only at hafter hanswer hfiles ⊢
    have hrecords := mapM_eq_ok_iff.1 hanswer.symm
    have hlength : analysis.keys.length = records.length := by
      simpa using congrArg List.length hrecords
    have hkeys : ((analysis.keys.zip records).map (·.1)).Nodup := by
      rw [List.map_fst_zip (Nat.le_of_eq hlength)]
      exact Dictionary.nodup_keys analysis.eligible
    -- Keys are different, so no choice takes the place of another.
    obtain ⟨choices, s₁, hchoose, hchosen⟩ := choose_unattended services.tools package.name
      hinteractive (analysis.keys.zip records) hkeys { } (fun _ _ => rfl) s₀
    have hchoose' := congrArg Prod.snd hchoose
    simp only at hchoose'
    refine ⟨choices, s₁, ⟨fun key hkey => ?_, fun key path => ?_⟩, ?_, ?_, ?_⟩
    · have hmem := List.mem_map_of_mem (f := services.record)
        (List.mem_map_of_mem (f := Request.latest) hkey)
      rw [hrecords] at hmem
      obtain ⟨record, -, hrecord⟩ := List.mem_map.1 hmem
      exact ⟨record, hrecord.symm⟩
    · rw [hchosen.pins, or_iff_right (by simp)]
      constructor
      · rintro ⟨record, hmem, hselect, -⟩
        obtain ⟨hkey, hrecord⟩ := (mem_zip_records hrecords).1 hmem
        exact ⟨hkey, record, hrecord, hselect⟩
      · rintro ⟨hkey, record, hrecord, hselect⟩
        refine ⟨record, (mem_zip_records hrecords).2 ⟨hkey, hrecord⟩, hselect, fun hyes => ?_⟩
        rw [hinteractive] at hyes
        simp at hyes
    · rw [← hchoose', keepsFiles_choose, hfiles]
    · rw [← hchoose']
      exact sound_of_simulates ((related_shares services).relatedOn.choose options package.name
        (analysis.keys.zip records) { }) hafter
    · rw [run_bind, hchoose]
      simp only
      split
      · -- Without a pin the commits are left out, and they would do nothing.
        rename_i hempty
        rw [commitAll_of_isEmpty services.tools hempty]
        rfl
      · rfl

/-- **A pass without questions** finds nothing, fails with the registry, or commits all files of the
package with the paths that the records of its eligible repositories select. -/
theorem onPackage_unattended (hinteractive : options.interactive = false) (package : Package)
    {s : Session (Traffic γ)} (hsound : s.cache.Sound services.record services.outcome) :
    let analysis := (Analysis.ofFiles (lookup services.tools) package.files s).1
    (analysis.keys = [] ∧ (onPackage services.tools options package s).1 = .ok .nothing ∧
      (onPackage services.tools options package s).2.files = s.files) ∨
    Commits services options package analysis s.files
      (onPackage services.tools options package s) := by
  intro analysis
  have hafter : (analyze services.tools package.files s).2.cache.Sound services.record
      services.outcome :=
    sound_of_simulates ((related_shares services).relatedOn.analyze package.files) hsound
  have hfiles := keepsFiles_analyze services.tools package.files s
  have hanalysis : (analyze services.tools package.files s).1 = analysis := rfl
  unfold onPackage
  rw [run_bind]
  generalize analyze services.tools package.files s = judged at hafter hfiles hanalysis
  obtain ⟨found, s₀⟩ := judged
  simp only at hafter hfiles hanalysis ⊢
  subst hanalysis
  rw [run_bind]
  generalize htold : (notify services.tools (analysisNotices options.verbose analysis) s₀).2 = s₂
  have hfiles' : s₂.files = s.files := by
    rw [← htold, keepsFiles_notify, hfiles]
  have hsound' : s₂.cache.Sound services.record services.outcome := by
    rw [← htold]
    exact hafter
  split
  · rename_i hempty
    exact .inl ⟨List.isEmpty_iff.1 hempty, rfl, hfiles'⟩
  · right
    rw [← hfiles']
    split
    · rw [run_bind]
      exact pinEligible_unattended hinteractive package analysis
        (notify services.tools [keysNotice package.name analysis.keys] s₂).2 hsound'
    · exact pinEligible_unattended hinteractive package analysis s₂ hsound'

end PinnedImports.Pass
