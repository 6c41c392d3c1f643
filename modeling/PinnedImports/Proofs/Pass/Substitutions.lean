import PinnedImports.Proofs.Pass.Recording

/-!
# Which imports a pass substitutes

A pass that ends with a commit has substituted an import path exactly if no import of the path in
the package has a reason to be kept, the path's repository owns it, the record of the repository
selects a path, the operator accepted it where asked, and the new path could be downloaded.
-/

set_option autoImplicit false

namespace PinnedImports.Pass

open Session Registry

variable {σ : Type} {tools : Collaborators σ} {options : Options} {package : String}

/-! ## Choices -/

/-- The record of a repository selects a path, and where the operator is asked the path was
accepted. -/
def IsPin (options : Options) (package : String) (answers : Answers) (key : String)
    (record : Record) (path : String) : Prop :=
  select record (options.library.appliesTo package) options.preferRevisions = .use path ∧
    (options.interactive = true → (⟨key, path, package⟩, .ok .accept) ∈ answers)

/-- Only answers about the repository itself matter. -/
theorem isPin_congr {answers others : Answers} {key : String}
    (h : ∀ entry, entry.1.source = key → (entry ∈ answers ↔ entry ∈ others))
    (record : Record) (path : String) :
    IsPin options package answers key record path ↔
      IsPin options package others key record path := by
  unfold IsPin
  rw [h (⟨key, path, package⟩, .ok .accept) rfl]

/-- What a run over pairs of keys and records has chosen, and the answers that were given. -/
structure Chosen (options : Options) (package : String) (pairs : List (String × Record))
    (before after : Choices) (answers : Answers) : Prop where
  asked : ∀ entry ∈ answers, entry.1.source ∈ pairs.map (·.1)
  pins : ∀ key path, after.pins.get? key = some path ↔
    before.pins.get? key = some path ∨
      ∃ record, (key, record) ∈ pairs ∧ IsPin options package answers key record path

/-- One more repository in front of a run. -/
theorem Chosen.cons {key : String} {record : Record} {pairs : List (String × Record)}
    {before middle after : Choices} {answers : Answers}
    (h : Chosen options package pairs middle after answers) (asked : Answers)
    (hkey : key ∉ pairs.map (·.1)) (hasked : ∀ entry ∈ asked, entry.1.source = key)
    (hmiddle : ∀ other path, middle.pins.get? other = some path ↔
      before.pins.get? other = some path ∨
        other = key ∧ IsPin options package asked key record path) :
    Chosen options package ((key, record) :: pairs) before after (asked ++ answers) where
  asked entry hentry := by
    rw [List.map_cons, List.mem_cons]
    rcases List.mem_append.1 hentry with hentry | hentry
    · exact .inl (hasked entry hentry)
    · exact .inr (h.asked entry hentry)
  pins other path := by
    -- Answers are told apart by the key they are about, and no key occurs twice.
    have hhead : IsPin options package (asked ++ answers) key record path ↔
        IsPin options package asked key record path := by
      refine isPin_congr (fun entry hentry => ?_) record path
      rw [List.mem_append, or_iff_left]
      intro hmem
      exact hkey (hentry ▸ h.asked entry hmem)
    have hrest : ∀ {r}, (other, r) ∈ pairs →
        (IsPin options package (asked ++ answers) other r path ↔
          IsPin options package answers other r path) := by
      intro r hmem
      refine isPin_congr (fun entry hentry => ?_) r path
      rw [List.mem_append, or_iff_right]
      intro hother
      refine hkey ?_
      rw [← hasked entry hother, hentry]
      exact List.mem_map.2 ⟨_, hmem, rfl⟩
    rw [h.pins, hmiddle, or_assoc]
    refine or_congr_right ⟨?_, ?_⟩
    · rintro (⟨rfl, hpin⟩ | ⟨r, hmem, hpin⟩)
      · exact ⟨record, List.mem_cons_self, hhead.2 hpin⟩
      · exact ⟨r, List.mem_cons_of_mem _ hmem, (hrest hmem).2 hpin⟩
    · rintro ⟨r, hmem, hpin⟩
      rcases List.mem_cons.1 hmem with heq | hmem
      · rw [Prod.mk.injEq] at heq
        obtain ⟨rfl, rfl⟩ := heq
        exact .inl ⟨rfl, hhead.1 hpin⟩
      · exact .inr ⟨r, hmem, (hrest hmem).1 hpin⟩

/-- The choices are unchanged where the repository is not pinned. -/
theorem get?_pins_of_not_pinned {before middle : Choices} {asked : Answers} {key : String}
    {record : Record} (hpins : middle.pins = before.pins)
    (h : ∀ path, ¬ IsPin options package asked key record path) (other path : String) :
    middle.pins.get? other = some path ↔ before.pins.get? other = some path ∨
      other = key ∧ IsPin options package asked key record path := by
  rw [hpins, or_iff_left]
  exact fun hpin => h path hpin.2

theorem get?_pins_take {before : Choices} {asked : Answers} {key pinned : String}
    {record : Record} (hfresh : before.pins.get? key = none)
    (hpin : IsPin options package asked key record pinned) (other path : String) :
    (before.take key pinned).pins.get? other = some path ↔
      before.pins.get? other = some path ∨
        other = key ∧ IsPin options package asked key record path := by
  rw [Choices.take, Dictionary.get?_insert]
  constructor
  · intro h
    split at h
    · rename_i heq
      rw [← Option.some.inj h]
      exact .inr ⟨heq, hpin⟩
    · exact .inl h
  · rintro (h | ⟨rfl, hpath⟩)
    · rw [if_neg, h]
      rintro rfl
      rw [hfresh] at h
      simp at h
    · have hsame := hpin.1.symm.trans hpath.1
      rw [Selection.use.injEq] at hsame
      rw [if_pos rfl, hsame]

/-- **What the repositories are pinned to.** -/
theorem choose_spec (tools : Collaborators σ) (options : Options) (package : String)
    (pairs : List (String × Record)) (hkeys : (pairs.map (·.1)).Nodup) (before : Choices)
    (hfresh : ∀ key ∈ pairs.map (·.1), before.pins.get? key = none) (s : Session σ)
    (earlier : Answers) {after : Choices} {s' : Session (σ × Answers)}
    (h : choose tools.recording options package pairs before (s.withAnswers earlier) =
      (.ok (some after), s')) :
    ∃ answers last, s' = withAnswers (earlier ++ answers) last ∧ last.cache = s.cache ∧
      Chosen options package pairs before after answers := by
  induction pairs generalizing before s earlier with
  | nil =>
    rw [choose, run_pure, Prod.mk.injEq, Except.ok.injEq, Option.some.injEq] at h
    refine ⟨[], s, by rw [List.append_nil]; exact h.2.symm, rfl, by simp, fun key path => ?_⟩
    rw [h.1]
    simp
  | cons pair rest ih =>
    obtain ⟨key, record⟩ := pair
    rw [List.map_cons, List.nodup_cons] at hkeys
    have hhead : before.pins.get? key = none := hfresh key List.mem_cons_self
    have hrest : ∀ other ∈ rest.map (·.1), before.pins.get? other = none :=
      fun other hother => hfresh other (List.mem_cons_of_mem _ hother)
    have htaken : ∀ path, ∀ other ∈ rest.map (·.1),
        (before.take key path).pins.get? other = none := by
      intro path other hother
      rw [Choices.take, Dictionary.get?_insert, if_neg, hrest other hother]
      rintro rfl
      exact hkeys.1 hother
    rw [choose] at h
    cases hselect : select record (options.library.appliesTo package) options.preferRevisions with
    | skip reason =>
      rw [hselect] at h
      obtain ⟨answers, last, hlast, hcache, hchosen⟩ :=
        ih hkeys.2 (before.skip key reason.message) hrest
          (notify tools (skipNotices options.verbose key reason) s).2 earlier h
      refine ⟨answers, last, hlast, hcache,
        hchosen.cons [] hkeys.1 (by simp) (get?_pins_of_not_pinned rfl ?_)⟩
      intro path hpin
      rw [hpin.1] at hselect
      simp at hselect
    | use path =>
      rw [hselect] at h
      simp only at h
      split at h
      · rename_i hinteractive
        rw [run_bind] at h
        have hsession : (ask tools.recording ⟨key, path, package⟩ (s.withAnswers earlier)).2 =
          withAnswers (earlier ++ [(⟨key, path, package⟩, (ask tools ⟨key, path, package⟩ s).1)])
            (ask tools ⟨key, path, package⟩ s).2 := rfl
        have hanswer : (ask tools.recording ⟨key, path, package⟩ (s.withAnswers earlier)).1 =
          (ask tools ⟨key, path, package⟩ s).1 := rfl
        rw [hsession, hanswer] at h
        have hcache : (ask tools ⟨key, path, package⟩ s).2.cache = s.cache := rfl
        generalize ask tools ⟨key, path, package⟩ s = found at h hcache
        obtain ⟨answer, s₁⟩ := found
        have hasked : ∀ entry ∈ [((⟨key, path, package⟩ : Confirm.Prompt), answer)],
            entry.1.source = key := by
          intro entry hentry
          rw [List.mem_singleton.1 hentry]
        rcases answer with message | _ | _ | _
        · exact absurd (congrArg Prod.fst h) (by simp [run_pure])
        · -- accepted
          obtain ⟨answers, last, hlast, hcache', hchosen⟩ :=
            ih hkeys.2 (before.take key path) (htaken path) s₁ _ h
          rw [List.append_assoc] at hlast
          exact ⟨_, last, hlast, hcache'.trans hcache, hchosen.cons _ hkeys.1 hasked
            (get?_pins_take hhead ⟨hselect, fun _ => List.mem_singleton.2 rfl⟩)⟩
        · -- declined
          obtain ⟨answers, last, hlast, hcache', hchosen⟩ :=
            ih hkeys.2 (before.skip key "declined") hrest s₁ _ h
          rw [List.append_assoc] at hlast
          refine ⟨_, last, hlast, hcache'.trans hcache,
            hchosen.cons _ hkeys.1 hasked (get?_pins_of_not_pinned rfl ?_)⟩
          intro other hpin
          have hmem := List.mem_singleton.1 (hpin.2 hinteractive)
          simp at hmem
        · exact absurd (congrArg Prod.fst h) (by simp [run_pure])
      · rename_i hinteractive
        obtain ⟨answers, last, hlast, hcache, hchosen⟩ :=
          ih hkeys.2 (before.take key path) (htaken path) s earlier h
        exact ⟨answers, last, hlast, hcache, hchosen.cons [] hkeys.1 (by simp)
          (get?_pins_take hhead ⟨hselect, fun hyes => absurd hyes hinteractive⟩)⟩

/-! ## Commits -/

/-- **What the reports of all files say.** Only files with a substitution have one. -/
theorem commitAll_spec (tools : Collaborators σ) (options : Options) (pins : Dictionary String)
    (disabled : StringSet) (files : List SourceFile) (s : Session σ) :
    s.cache.Grows (commitAll tools options pins disabled files s).2.cache ∧
      ∀ name path replacement,
        (∃ report ∈ (commitAll tools options pins disabled files s).1,
          report.file = name ∧ report.substitutions.get? path = some replacement) ↔
        ∃ file ∈ files, file.path = name ∧
          (Imports.substitutions pins disabled file.source.imports).get? path =
            some replacement ∧
          (options.dryRun = false →
            (commitAll tools options pins disabled files s).2.cache.downloads.get? replacement =
              some .fetched) := by
  induction files generalizing s with
  | nil => exact ⟨.refl s.cache, fun _ _ _ => by simp [commitAll, run_pure]⟩
  | cons file rest ih =>
    rw [commitAll]
    split
    · rename_i hempty
      have hnone := Dictionary.isEmpty_iff.1 hempty
      obtain ⟨hgrows, hreports⟩ := ih s
      refine ⟨hgrows, fun name path replacement => ?_⟩
      rw [hreports]
      simp [hnone]
    · rw [run_bind, run_bind]
      obtain ⟨hcommit, hreport⟩ := commit_spec tools options.dryRun options.verbose file
        (Imports.substitutions pins disabled file.source.imports) s
      obtain ⟨hgrows, hreports⟩ := ih (commit tools options.dryRun options.verbose file
        (Imports.substitutions pins disabled file.source.imports) s).2
      have hreport := hreport.mono hgrows
      refine ⟨hcommit.trans hgrows, fun name path replacement => ?_⟩
      simp only [run_pure, List.mem_cons, exists_eq_or_imp, hreports, hreport.substitutions,
        hreport.file]

/-! ## The pass -/

theorem zip_answers (cache : Cache) (keys : List String) :
    keys.zip (cache.answers (keys.map Request.latest)) =
      keys.map fun key => (key, (cache.record? (.latest key)).getD { }) := by
  induction keys with
  | nil => rfl
  | cons key rest ih =>
    rw [Cache.answers, List.map_cons, List.map_cons, List.zip_cons_cons, List.map_cons, ← ih]
    rfl

/-- Each key is paired with the record that the cache holds for it. -/
theorem mem_zip_answers {cache : Cache} {keys : List String}
    (hknown : ∀ request ∈ keys.map Request.latest, ∃ record, cache.record? request = some record)
    {key : String} {record : Record} :
    (key, record) ∈ keys.zip (cache.answers (keys.map Request.latest)) ↔
      key ∈ keys ∧ cache.record? (.latest key) = some record := by
  rw [zip_answers, List.mem_map]
  constructor
  · rintro ⟨other, hother, heq⟩
    rw [Prod.mk.injEq] at heq
    obtain ⟨rfl, rfl⟩ := heq
    obtain ⟨found, hfound⟩ := hknown (.latest other) (List.mem_map.2 ⟨other, hother, rfl⟩)
    rw [hfound]
    exact ⟨hother, rfl⟩
  · rintro ⟨hkey, hrecord⟩
    exact ⟨key, hkey, by rw [hrecord]; rfl⟩

/-- A batch that goes well has a record for every request in the cache. -/
theorem resolve_spec {tools : Collaborators σ} {requests : List Request} {s : Session σ}
    {records : List Record} (h : (resolve tools requests s).1 = .ok records) :
    s.cache.Grows (resolve tools requests s).2.cache ∧
      records = (resolve tools requests s).2.cache.answers requests ∧
      ∀ request ∈ requests, ∃ record,
        (resolve tools requests s).2.cache.record? request = some record :=
  Cache.resolve_ok (Prod.ext h rfl : s.cache.resolve tools.registry requests s.world =
    (.ok records, (resolve tools requests s).2.cache, (resolve tools requests s).2.world))

/-- The part behind the judgement ends with a commit only if the registry answered and the operator
did not abort. -/
theorem pinEligible_spec (tools : Collaborators σ) (options : Options) (package : Package)
    (analysis : Analysis) (s : Session σ) (earlier : Answers) {summary : PackageSummary}
    {s' : Session (σ × Answers)}
    (h : pinEligible tools.recording options package analysis (s.withAnswers earlier) =
      (.ok (.committed summary), s')) :
    ∃ answers last, s' = withAnswers (earlier ++ answers) last ∧
      (∀ key path, summary.pins.get? key = some path ↔ key ∈ analysis.keys ∧ ∃ record,
        last.cache.record? (.latest key) = some record ∧
          IsPin options package.name answers key record path) ∧
      ∀ name path replacement,
        (∃ report ∈ summary.files,
          report.file = name ∧ report.substitutions.get? path = some replacement) ↔
        ∃ file ∈ package.files, file.path = name ∧
          (Imports.substitutions summary.pins analysis.disabled file.source.imports).get? path =
            some replacement ∧
          (options.dryRun = false → last.cache.downloads.get? replacement = some .fetched) := by
  unfold pinEligible at h
  rw [run_bind, silent_resolve] at h
  cases hreply : (resolve tools (analysis.keys.map Request.latest) s).1 with
  | error failure =>
    rw [hreply] at h
    exact nomatch congrArg Prod.fst h
  | ok records =>
    obtain ⟨-, hrecords, hknown⟩ := resolve_spec hreply
    rw [hreply] at h
    generalize (resolve tools (analysis.keys.map Request.latest) s).2 = s₁ at h hrecords hknown
    simp only at h
    rw [run_bind] at h
    generalize hchoose : choose tools.recording options package.name
      (analysis.keys.zip records) { } (withAnswers earlier s₁) = chosen at h
    obtain ⟨e | _ | choices, t⟩ := chosen
    · exact nomatch congrArg Prod.fst h
    · exact nomatch congrArg Prod.fst h
    have hkeys : ((analysis.keys.zip records).map (·.1)).Nodup := by
      rw [hrecords, zip_answers, List.map_map]
      exact (List.map_id _).symm ▸ Dictionary.nodup_keys analysis.eligible
    obtain ⟨answers, s₂, rfl, hcache, hchosen⟩ := choose_spec tools options package.name
      (analysis.keys.zip records) hkeys { } (fun _ _ => rfl) s₁
      earlier hchoose
    have hpins : ∀ last : Session σ, s₁.cache.Grows last.cache → ∀ key path,
        choices.pins.get? key = some path ↔ key ∈ analysis.keys ∧ ∃ record,
          last.cache.record? (.latest key) = some record ∧
            IsPin options package.name answers key record path := by
      intro last hgrows key path
      rw [hchosen.pins, or_iff_right (by simp)]
      constructor
      · rintro ⟨record, hmem, hpin⟩
        rw [hrecords, mem_zip_answers hknown] at hmem
        exact ⟨hmem.1, record, hgrows.records _ _ hmem.2, hpin⟩
      · rintro ⟨hkey, record, hrecord, hpin⟩
        obtain ⟨found, hfound⟩ := hknown (.latest key) (List.mem_map.2 ⟨key, hkey, rfl⟩)
        have hsame := hgrows.records _ _ hfound
        rw [hrecord, Option.some.injEq] at hsame
        refine ⟨record, ?_, hpin⟩
        rw [hrecords, mem_zip_answers hknown]
        exact ⟨hkey, hsame ▸ hfound⟩
    simp only at h
    split at h
    · rename_i hempty
      rw [run_bind, run_pure, run_pure, Prod.mk.injEq] at h
      obtain ⟨hsummary, rfl⟩ := h
      rw [Except.ok.injEq, Outcome.committed.injEq] at hsummary
      rw [← hsummary]
      refine ⟨answers, s₂, rfl, hpins s₂ (hcache ▸ .refl _), ?_⟩
      intro name path replacement
      -- Without a pin nothing is substituted.
      have hnone : ∀ imports,
          (Imports.substitutions choices.pins analysis.disabled imports).get? path ≠
            some replacement := by
        intro imports hget
        obtain ⟨-, repository, pinned, -, hpinned, -⟩ :=
          Imports.substitute?_eq_some.1 (Imports.get?_substitutions.1 hget).2
        rw [Dictionary.isEmpty_iff.1 hempty] at hpinned
        exact nomatch hpinned
      simp [summarize, hnone]
    · rw [run_bind, silent_commitAll, run_pure, Prod.mk.injEq] at h
      obtain ⟨hsummary, rfl⟩ := h
      rw [Except.ok.injEq, Outcome.committed.injEq] at hsummary
      obtain ⟨hgrows, hreports⟩ := commitAll_spec tools options choices.pins analysis.disabled
        package.files s₂
      rw [← hsummary]
      refine ⟨answers, _, rfl, hpins _ (hcache ▸ hgrows), ?_⟩
      intro name path replacement
      exact hreports name path replacement

theorem withAnswers_inj {answers others : Answers} {s t : Session σ}
    (h : s.withAnswers answers = t.withAnswers others) : answers = others ∧ s = t := by
  obtain ⟨files, transcript, cache, world⟩ := s
  obtain ⟨files', transcript', cache', world'⟩ := t
  simp only [withAnswers, Session.mk.injEq, Prod.mk.injEq] at h
  obtain ⟨rfl, rfl, rfl, rfl, rfl⟩ := h
  exact ⟨rfl, rfl⟩

/-- A pass over a package ends with a commit only through the part behind its judgement. -/
theorem pinEligible_of_onPackage {package : Package} {s : Session σ} {earlier : Answers}
    {summary : PackageSummary} {s' : Session (σ × Answers)}
    (h : onPackage tools.recording options package (s.withAnswers earlier) =
      (.ok (.committed summary), s')) :
    ∃ s₁, pinEligible tools.recording options package
      (Analysis.ofFiles (lookup tools) package.files s).1 (withAnswers earlier s₁) =
        (.ok (.committed summary), s') := by
  unfold onPackage at h
  rw [run_bind, silent_analyze, run_bind, silent_notify] at h
  simp only at h
  split at h
  · exact nomatch congrArg Prod.fst h
  · split at h
    · rw [run_bind, silent_notify] at h
      exact ⟨_, h⟩
    · exact ⟨_, h⟩

/-- A pass ends with a commit only if there is a package, and through the part behind the judgement of
it. The recorded pass comes to the same commit. -/
theorem pinEligible_of_onDirectory {dir : String} {s s' : Session σ} {summary : PackageSummary}
    (h : onDirectory tools options dir s = (.ok (.committed summary), s')) :
    ∃ package notices answers s₁,
      Package.load s.files dir = .ok (some package, notices) ∧
      onDirectory tools.recording options dir (s.withAnswers []) =
        (.ok (.committed summary), s'.withAnswers answers) ∧
      pinEligible tools.recording options package
        (Analysis.ofFiles (lookup tools) package.files (notify tools notices s).2).1
          (withAnswers [] s₁) = (.ok (.committed summary), s'.withAnswers answers) := by
  obtain ⟨answers, hrecorded⟩ := onDirectory_recording tools options dir s []
  rw [h] at hrecorded
  have hrun := hrecorded
  rw [onDirectory_eq] at hrun
  have hfiles : (s.withAnswers []).files = s.files := rfl
  rw [hfiles] at hrun
  cases hload : Package.load s.files dir with
  | error cause =>
    rw [hload] at hrun
    exact nomatch congrArg Prod.fst hrun
  | ok loaded =>
    obtain ⟨_ | package, notices⟩ := loaded
    · rw [hload] at hrun
      exact nomatch congrArg Prod.fst hrun
    rw [hload] at hrun
    simp only [silent_notify tools notices s []] at hrun
    obtain ⟨s₁, hpin⟩ := pinEligible_of_onPackage hrun
    exact ⟨package, notices, _, s₁, rfl, hrecorded, hpin⟩

open Analysis in
/-- **What a committed pass has substituted.** The recorded run is the same run, with the operator's
answers written down. An import path of a file is substituted exactly if no import of that path in
the package has a reason to be kept, its repository owns it, the record that the session holds for
the repository selects a path and the new path is that one with the rest of the import path, in an
interactive pass the operator accepted it, and outside of a dry run it has been downloaded. -/
theorem committed_substitution_iff (tools : Collaborators σ) (options : Options) (dir : String)
    {s s' : Session σ} {summary : PackageSummary}
    (h : onDirectory tools options dir s = (.ok (.committed summary), s')) :
    ∃ package notices answers,
      Package.load s.files dir = .ok (some package, notices) ∧
      onDirectory tools.recording options dir (s.withAnswers []) =
        (.ok (.committed summary), s'.withAnswers answers) ∧
      ∀ file ∈ package.files, ∀ spec ∈ file.source.imports, ∀ replacement,
        (∃ report ∈ summary.files, report.file = file.path ∧
          report.substitutions.get? spec.path = some replacement) ↔
        (∀ other ∈ package.files, ∀ occurrence ∈ other.source.imports,
          occurrence.path = spec.path →
            reason? (names (lookup tools) package.files (notify tools notices s).2) other
              occurrence = none) ∧
        ∃ repository record pinned rest,
          Repository.ofImportPath? spec.path = some repository ∧
          owns repository.key spec.path = true ∧
          s'.cache.record? (.latest repository.key) = some record ∧
          select record (options.library.appliesTo package.name) options.preferRevisions =
            .use pinned ∧
          spec.path = repository.key ++ rest ∧ replacement = pinned ++ rest ∧
          (options.interactive = true →
            (⟨repository.key, pinned, package.name⟩, .ok .accept) ∈ answers) ∧
          (options.dryRun = false → s'.cache.downloads.get? replacement = some .fetched) := by
  obtain ⟨package, notices, answers, s₁, hload, hrecorded, hpin⟩ := pinEligible_of_onDirectory h
  obtain ⟨asked, last, hlast, hpins, hreports⟩ := pinEligible_spec _ _ _ _ _ _ hpin
  obtain ⟨rfl, rfl⟩ := withAnswers_inj hlast
  refine ⟨package, notices, _, hload, hrecorded, fun file hfile spec hspec replacement => ?_⟩
  rw [hreports, ← not_mem_disabled_ofFiles]
  constructor
  · rintro ⟨_, _, _, hsub, hfetched⟩
    obtain ⟨hdisabled, repository, pinned, hrepository, hpinned, hreplace⟩ :=
      Imports.substitute?_eq_some.1 (Imports.get?_substitutions.1 hsub).2
    obtain ⟨howns, rest, hpath, hreplacement⟩ := replaceKey?_eq_some.1 hreplace
    obtain ⟨-, record, hrecord, hselect, haccept⟩ := (hpins _ _).1 hpinned
    exact ⟨hdisabled, repository, record, pinned, rest, hrepository, howns, hrecord, hselect,
      hpath, hreplacement, haccept, hfetched⟩
  · rintro ⟨hdisabled, repository, record, pinned, rest, hrepository, howns, hrecord, hselect,
      hpath, hreplacement, haccept, hfetched⟩
    have hkey := mem_keys_ofFiles.2 ⟨file, hfile, spec, hspec, hdisabled, repository,
      hrepository, rfl⟩
    have hpinned := (hpins repository.key pinned).2 ⟨hkey, record, hrecord, hselect, haccept⟩
    have hsub : Imports.substitute? summary.pins _ spec.path = some replacement :=
      Imports.substitute?_eq_some.2 ⟨hdisabled, repository, pinned, hrepository, hpinned,
        replaceKey?_eq_some.2 ⟨howns, rest, hpath, hreplacement⟩⟩
    exact ⟨file, hfile, rfl, Imports.get?_substitutions.2 ⟨⟨spec, hspec, rfl⟩, hsub⟩, hfetched⟩

/-- The reports of a pass that ended with a commit. -/
def committedReports (result : Except PassError Outcome) : List FileReport :=
  match result with
  | .ok (.committed summary) => summary.files
  | _ => []

theorem exists_committed_of_mem {result : Except PassError Outcome} {report : FileReport}
    (h : report ∈ committedReports result) :
    ∃ summary, result = .ok (.committed summary) ∧ report ∈ summary.files := by
  rcases result with e | _ | summary | _
  · simp [committedReports] at h
  · simp [committedReports] at h
  · exact ⟨summary, rfl, h⟩
  · simp [committedReports] at h

/-- Whether there is a package in the directory and it satisfies `p`. -/
def loads (p : Package → Bool) (files : Storage.Node) (dir : String) : Bool :=
  match Package.load files dir with
  | .ok (some package, _) => p package
  | _ => false

/-- A world in which every repository has a revision, every download goes well and the operator accepts
every path. -/
def obliging : Collaborators Unit where
  palette := ⟨false⟩
  registry requests world :=
    (.ok (requests.map fun request =>
      { path := request.path, registryPath := "gopkgs.com/b", revision := "1" }), world)
  names _ _ world := ((.ok "b", []), world)
  downloader _ _ world := (.fetched, world)
  gate _ world := ((.ok .accept, ∅), world)

/-- A directory with one file that has one import. -/
def oneImport : Session Unit where
  files := .directory [("p", .directory [("a.go",
    .file 0o644 (.text "package main\nimport \"github.com/a/b\"\n"))])]
  world := ()

set_option maxRecDepth 10000 in
/-- In an interactive pass the import is substituted, and so the operator has accepted its path. -/
theorem interactive_substitution_accepted :
    ∃ summary s' answers,
      onDirectory obliging { interactive := true } "p" oneImport =
        (.ok (.committed summary), s') ∧
      onDirectory obliging.recording { interactive := true } "p" (oneImport.withAnswers []) =
        (.ok (.committed summary), s'.withAnswers answers) ∧
      (∃ report ∈ summary.files, report.file = "p/a.go" ∧
        report.substitutions.get? "github.com/a/b" = some "gopkgs.com/b.r1") ∧
      (⟨"github.com/a/b", "gopkgs.com/b.r1", "main"⟩, .ok .accept) ∈ answers := by
  have hcheck : ((committedReports (onDirectory obliging { interactive := true } "p"
      oneImport).1).any fun report =>
        report.file == "p/a.go" &&
          report.substitutions.get? "github.com/a/b" == some "gopkgs.com/b.r1") = true := by
    decide +kernel
  have hfiles : loads (fun package => package.name == "main" && package.files.any fun file =>
      file.path == "p/a.go" && file.source.imports.any (·.path == "github.com/a/b"))
      oneImport.files "p" = true := by
    decide +kernel
  obtain ⟨⟨result, s'⟩, hrun⟩ :
      ∃ pass, onDirectory obliging { interactive := true } "p" oneImport = pass := ⟨_, rfl⟩
  rw [hrun] at hcheck
  obtain ⟨report, hmem, hsub⟩ := List.any_eq_true.1 hcheck
  rw [Bool.and_eq_true, beq_iff_eq, beq_iff_eq] at hsub
  obtain ⟨summary, rfl, hreport⟩ := exists_committed_of_mem hmem
  obtain ⟨package, notices, answers, hload, hrecorded, hiff⟩ :=
    committed_substitution_iff obliging { interactive := true } "p" hrun
  rw [loads, hload] at hfiles
  simp only [Bool.and_eq_true, beq_iff_eq, List.any_eq_true] at hfiles
  obtain ⟨hname, file, hfile, hpath, spec, hspec, himport⟩ := hfiles
  have hsubstituted := hiff file hfile spec hspec "gopkgs.com/b.r1"
  rw [hpath, himport] at hsubstituted
  obtain ⟨-, repository, record, pinned, rest, hrepository, -, -, -, hkey, hpinned, haccept, -⟩ :=
    hsubstituted.1 ⟨report, hreport, hsub⟩
  refine ⟨summary, s', answers, hrun, hrecorded, ⟨report, hreport, hsub⟩, ?_⟩
  have hgithub : (Repository.ofImportPath? "github.com/a/b").map (·.key) =
      some "github.com/a/b" := by
    decide +kernel
  rw [hrepository, Option.map_some, Option.some.injEq] at hgithub
  rw [hgithub] at hkey haccept
  -- The whole path is the key, so nothing stands behind it.
  have hrest : rest = "" := by
    rw [← String.append_right_inj "github.com/a/b", String.append_empty]
    exact hkey.symm
  rw [hrest, String.append_empty] at hpinned
  rw [hpinned, ← hname]
  exact haccept rfl

end PinnedImports.Pass
