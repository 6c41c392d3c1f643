import PinnedImports.Pass.Commit
import PinnedImports.Proofs.Cache
import PinnedImports.Proofs.Imports.Substitution
import PinnedImports.Proofs.Storage.Steps

/-!
# What a commit reports

The report of a file holds the substitutions that it was given, outside of a dry run only those whose
path has been downloaded. Because the cache only grows, this can be read off the cache at any later
time.
-/

set_option autoImplicit false

namespace PinnedImports.Pass

open Session Storage

variable {σ : Type}

theorem run_bind {S α β : Type} (m : StateM S α) (f : α → StateM S β) (s : S) :
    (m >>= f) s = f (m s).1 (m s).2 := rfl

theorem run_pure {S α : Type} (a : α) (s : S) : (pure a : StateM S α) s = (a, s) := rfl

@[simp] theorem cache_notify (tools : Collaborators σ) (notices : List Notice) (s : Session σ) :
    (notify tools notices s).2.cache = s.cache := rfl

theorem download_spec (tools : Collaborators σ) (path : String) (s : Session σ) :
    s.cache.Grows (download tools path s).2.cache ∧
      (download tools path s).2.cache.downloads.get? path = some (download tools path s).1 :=
  Cache.download_eq (rfl : s.cache.download (tools.downloader s.files) path s.world =
    ((download tools path s).1, (download tools path s).2.cache, (download tools path s).2.world))

/-! ## Downloads -/

theorem undownloadable_cons_of_fetched {tools : Collaborators σ} {replacement : String}
    {s : Session σ} (h : (download tools replacement s).1 = .fetched) (path : String)
    (rest : List (String × String)) :
    undownloadable tools ((path, replacement) :: rest) s =
      undownloadable tools rest (download tools replacement s).2 := by
  rw [undownloadable, run_bind, h]

theorem undownloadable_cons_of_failed {tools : Collaborators σ} {replacement message : String}
    {s : Session σ} (h : (download tools replacement s).1 = .failed message) (path : String)
    (rest : List (String × String)) :
    ∃ s₁ : Session σ, s₁.cache = (download tools replacement s).2.cache ∧
      undownloadable tools ((path, replacement) :: rest) s =
        (path :: (undownloadable tools rest s₁).1, (undownloadable tools rest s₁).2) := by
  rw [undownloadable, run_bind, h]
  exact ⟨_, cache_notify tools _ _, rfl⟩

/-- Every path is downloaded, and the list holds those that cannot be. -/
theorem undownloadable_spec (tools : Collaborators σ) (entries : List (String × String))
    (s : Session σ) :
    s.cache.Grows (undownloadable tools entries s).2.cache ∧
      (∀ entry ∈ entries, ∃ outcome,
        (undownloadable tools entries s).2.cache.downloads.get? entry.2 = some outcome) ∧
      ∀ path, path ∈ (undownloadable tools entries s).1 ↔ ∃ replacement message,
        (path, replacement) ∈ entries ∧
          (undownloadable tools entries s).2.cache.downloads.get? replacement =
            some (.failed message) := by
  induction entries generalizing s with
  | nil => exact ⟨.refl s.cache, by simp, fun path => by simp [undownloadable, run_pure]⟩
  | cons entry rest ih =>
    obtain ⟨path, replacement⟩ := entry
    obtain ⟨hgrows, houtcome⟩ := download_spec tools replacement s
    cases h : (download tools replacement s).1 with
    | fetched =>
      rw [undownloadable_cons_of_fetched h]
      obtain ⟨hrest, hknown, hdropped⟩ := ih (download tools replacement s).2
      have hhead := hrest.downloads _ _ (h ▸ houtcome)
      refine ⟨hgrows.trans hrest, ?_, fun other => ?_⟩
      · intro entry hentry
        rcases List.mem_cons.1 hentry with rfl | hentry
        · exact ⟨_, hhead⟩
        · exact hknown entry hentry
      · rw [hdropped]
        constructor
        · rintro ⟨r, message, hmem, hr⟩
          exact ⟨r, message, List.mem_cons_of_mem _ hmem, hr⟩
        · rintro ⟨r, message, hmem, hr⟩
          rcases List.mem_cons.1 hmem with heq | hmem
          · rw [Prod.mk.injEq] at heq
            rw [heq.2, hhead] at hr
            simp at hr
          · exact ⟨r, message, hmem, hr⟩
    | failed message =>
      obtain ⟨s₁, hcache, heq⟩ := undownloadable_cons_of_failed h path rest
      rw [heq]
      obtain ⟨hrest, hknown, hdropped⟩ := ih s₁
      rw [hcache] at hrest
      have hhead := hrest.downloads _ _ (h ▸ houtcome)
      refine ⟨hgrows.trans hrest, ?_, fun other => ?_⟩
      · intro entry hentry
        rcases List.mem_cons.1 hentry with rfl | hentry
        · exact ⟨_, hhead⟩
        · exact hknown entry hentry
      · rw [List.mem_cons, hdropped]
        constructor
        · rintro (rfl | ⟨r, message, hmem, hr⟩)
          · exact ⟨replacement, message, List.mem_cons_self, hhead⟩
          · exact ⟨r, message, List.mem_cons_of_mem _ hmem, hr⟩
        · rintro ⟨r, message', hmem, hr⟩
          rcases List.mem_cons.1 hmem with heq | hmem
          · rw [Prod.mk.injEq] at heq
            exact .inl heq.1
          · exact .inr ⟨r, message', hmem, hr⟩

/-! ## One file -/

/-- A file is exchanged for its text with the substituted paths, or the operator is told why not. -/
theorem write_eq (tools : Collaborators σ) (file : SourceFile) (subs : Dictionary String)
    (s : Session σ) :
    write tools file subs s =
      match s.files.replaceText file.path
        (Imports.render file.text subs file.source.imports) (refusals tools file.path s).1 with
      | .ok files => (.ok (), { (refusals tools file.path s).2 with files := files })
      | .error cause => (.error cause.message, (notify tools
          [⟨.warn, "error rewriting file " ++ file.path ++ ": " ++ cause.message⟩]
          (refusals tools file.path s).2).2) := by
  -- The replacement is run on the files, and a failed one hands them back as they were.
  have hrun := run_replace (refusals tools file.path s).1 file.path
    (Imports.render file.text subs file.source.imports) s.files
  have hfiles : ((get : StateM (Session σ) (Session σ)) (refusals tools file.path s).2).1.files =
      s.files := rfl
  unfold write
  simp only [run_bind, hfiles, hrun]
  cases s.files.replaceText file.path
    (Imports.render file.text subs file.source.imports) (refusals tools file.path s).1 <;> rfl

theorem cache_write (tools : Collaborators σ) (file : SourceFile) (subs : Dictionary String)
    (s : Session σ) : (write tools file subs s).2.cache = s.cache := by
  rw [write_eq]
  split <;> rfl

/-- The report on a file once it is known whether it could be written. -/
def reportOf (file : SourceFile) (live : Dictionary String) (dropped : List String) :
    Except String Unit → FileReport
  | .ok () => { file := file.path, substitutions := live, dropped := dropped, written := true }
  | .error message =>
    { file := file.path, substitutions := live, dropped := dropped, error := some message }

@[simp] theorem reportOf_file (file : SourceFile) (live : Dictionary String) (dropped : List String)
    (outcome : Except String Unit) : (reportOf file live dropped outcome).file = file.path := by
  cases outcome <;> rfl

@[simp] theorem reportOf_substitutions (file : SourceFile) (live : Dictionary String)
    (dropped : List String) (outcome : Except String Unit) :
    (reportOf file live dropped outcome).substitutions = live := by
  cases outcome <;> rfl

@[simp] theorem reportOf_dropped (file : SourceFile) (live : Dictionary String)
    (dropped : List String) (outcome : Except String Unit) :
    (reportOf file live dropped outcome).dropped = dropped := by
  cases outcome <;> rfl

/-- In a dry run a commit only tells of the substitutions. -/
theorem commit_dryRun (tools : Collaborators σ) (verbose : Bool) (file : SourceFile)
    {subs : Dictionary String} (hsubs : subs.isEmpty = false) (s : Session σ) :
    commit tools true verbose file subs s =
      ({ file := file.path, substitutions := subs },
        (tell (.ofOut (substitutionTable tools.palette "would rewrite" file.path subs)) s).2) := by
  rw [commit, if_neg (by simp [hsubs]), if_pos rfl]
  rfl

/-- Outside of a dry run a commit downloads, tells of what is left, and writes the file. -/
theorem commit_eq (tools : Collaborators σ) (verbose : Bool) (file : SourceFile)
    {subs : Dictionary String} (hsubs : subs.isEmpty = false) (s : Session σ) :
    commit tools false verbose file subs s =
      let found := undownloadable tools subs.entries s
      let live := subs.filter fun path _ => !found.1.contains path
      if live.isEmpty then ({ file := file.path, dropped := found.1 }, found.2)
      else
        let outcome := write tools file live
          (if verbose then
            (tell (.ofOut (substitutionTable tools.palette "rewrite" file.path live)) found.2).2
          else found.2)
        (reportOf file live found.1 outcome.1, outcome.2) := by
  have hreport : ∀ (live : Dictionary String) (dropped : List String) (t : Session σ), (do
      match ← write tools file live with
      | .ok () =>
        return { file := file.path, substitutions := live, dropped := dropped, written := true }
      | .error message =>
        return { file := file.path, substitutions := live, dropped := dropped,
                 error := some message } : StateM (Session σ) FileReport) t =
      (reportOf file live dropped (write tools file live t).1, (write tools file live t).2) := by
    intro live dropped t
    rw [run_bind]
    cases (write tools file live t).1 <;> rfl
  rw [commit, if_neg (by simp [hsubs]), if_neg Bool.false_ne_true, run_bind]
  simp only
  split
  · rfl
  · split
    · exact hreport _ _ _
    · exact hreport _ _ _

/-- A commit that is no dry run drops all substitutions, or it writes the file with those that are left;
telling of them changes neither the files nor the cache. -/
theorem commit_cases (tools : Collaborators σ) (verbose : Bool) (file : SourceFile)
    {subs : Dictionary String} (hsubs : subs.isEmpty = false) (s : Session σ) :
    let found := undownloadable tools subs.entries s
    let live := subs.filter fun path _ => !found.1.contains path
    (live.isEmpty = true ∧ commit tools false verbose file subs s =
        ({ file := file.path, dropped := found.1 }, found.2)) ∨
      (live.isEmpty = false ∧ ∃ t : Session σ, t.files = found.2.files ∧
        t.cache = found.2.cache ∧ commit tools false verbose file subs s =
          (reportOf file live found.1 (write tools file live t).1,
            (write tools file live t).2)) := by
  intro found live
  rw [commit_eq tools verbose file hsubs]
  cases hlive : live.isEmpty with
  | true =>
    refine .inl ⟨rfl, ?_⟩
    simp only
    rw [if_pos hlive]
  | false =>
    refine .inr ⟨rfl, _, ?_, ?_, if_neg (Bool.eq_false_iff.1 hlive)⟩
    · split <;> rfl
    · split <;> rfl

/-- What the report of a file says at the time it is made, and at any later time. -/
structure Reports (dryRun : Bool) (file : SourceFile) (subs : Dictionary String) (cache : Cache)
    (report : FileReport) : Prop where
  file : report.file = file.path
  /-- Outside of a dry run every path has been downloaded or could not be. -/
  known : ∀ path replacement, dryRun = false → subs.get? path = some replacement →
    ∃ outcome, cache.downloads.get? replacement = some outcome
  substitutions : ∀ path replacement, report.substitutions.get? path = some replacement ↔
    subs.get? path = some replacement ∧
      (dryRun = false → cache.downloads.get? replacement = some .fetched)

theorem Reports.mono {dryRun : Bool} {file : SourceFile} {subs : Dictionary String}
    {cache later : Cache} {report : FileReport} (h : Reports dryRun file subs cache report)
    (hgrows : cache.Grows later) : Reports dryRun file subs later report where
  file := h.file
  known path replacement hdry hsub := by
    obtain ⟨outcome, houtcome⟩ := h.known path replacement hdry hsub
    exact ⟨outcome, hgrows.downloads _ _ houtcome⟩
  substitutions path replacement := by
    rw [h.substitutions]
    refine and_congr_right fun hsub => ?_
    constructor
    · intro hfetched hdry
      exact hgrows.downloads _ _ (hfetched hdry)
    · intro hfetched hdry
      obtain ⟨outcome, houtcome⟩ := h.known path replacement hdry hsub
      have hlater := hgrows.downloads _ _ houtcome
      rw [hfetched hdry] at hlater
      rw [houtcome, Option.some.inj hlater]

/-- The substitutions without those that were dropped are those whose path has been downloaded. -/
theorem live_eq {cache : Cache} {subs : Dictionary String} {dropped : List String}
    (hknown : ∀ entry ∈ subs.entries, ∃ outcome, cache.downloads.get? entry.2 = some outcome)
    (hdropped : ∀ path, path ∈ dropped ↔ ∃ replacement message,
      (path, replacement) ∈ subs.entries ∧
        cache.downloads.get? replacement = some (.failed message)) :
    (subs.filter fun path _ => !dropped.contains path) =
      subs.filter fun _ replacement => cache.downloads.get? replacement = some .fetched := by
  apply Dictionary.filter_congr
  intro path replacement hsub
  have hmem := Dictionary.mem_entries.2 hsub
  rw [Bool.eq_iff_iff, Bool.not_eq_true', List.contains_eq_mem, decide_eq_false_iff_not, hdropped,
    decide_eq_true_eq]
  constructor
  · intro hnot
    obtain ⟨outcome, houtcome⟩ := hknown _ hmem
    cases outcome with
    | fetched => exact houtcome
    | failed message => exact absurd ⟨replacement, message, hmem, houtcome⟩ hnot
  · -- A path has one replacement, so what failed would be what has been downloaded.
    rintro hfetched ⟨other, message, hother, hfailed⟩
    have hsame := Dictionary.mem_entries.1 hother
    rw [hsub, Option.some.injEq] at hsame
    rw [← hsame, hfetched] at hfailed
    simp at hfailed

/-- A report with the substitutions that were not dropped. -/
theorem Reports.of_live {file : SourceFile} {cache : Cache} {subs : Dictionary String}
    {dropped : List String} {report : FileReport} (hfile : report.file = file.path)
    (hreport : report.substitutions = subs.filter fun path _ => !dropped.contains path)
    (hknown : ∀ entry ∈ subs.entries, ∃ outcome, cache.downloads.get? entry.2 = some outcome)
    (hdropped : ∀ path, path ∈ dropped ↔ ∃ replacement message,
      (path, replacement) ∈ subs.entries ∧
        cache.downloads.get? replacement = some (.failed message)) :
    Reports false file subs cache report where
  file := hfile
  known path replacement _ hsub := hknown _ (Dictionary.mem_entries.2 hsub)
  substitutions path replacement := by
    rw [hreport, live_eq hknown hdropped, Dictionary.get?_filter, decide_eq_true_eq]
    exact and_congr_right fun _ => ⟨fun h _ => h, fun h => h rfl⟩

/-- A dictionary without entries is the empty one. -/
theorem eq_empty_of_isEmpty {subs : Dictionary String} (h : subs.isEmpty = true) : subs = ∅ := by
  obtain ⟨entries, sorted⟩ := subs
  rw [Dictionary.isEmpty, List.isEmpty_iff] at h
  subst h
  rfl

/-- **A commit reports the substitutions whose path is there.** -/
theorem commit_spec (tools : Collaborators σ) (dryRun verbose : Bool) (file : SourceFile)
    (subs : Dictionary String) (s : Session σ) :
    s.cache.Grows (commit tools dryRun verbose file subs s).2.cache ∧
      Reports dryRun file subs (commit tools dryRun verbose file subs s).2.cache
        (commit tools dryRun verbose file subs s).1 := by
  cases hsubs : subs.isEmpty with
  | true =>
    -- Nothing is substituted, so nothing has to be known of downloads.
    rw [commit, if_pos hsubs, eq_empty_of_isEmpty hsubs]
    refine ⟨.refl s.cache, rfl, fun path replacement _ hsub => ?_, fun path replacement => ?_⟩
    · simp at hsub
    · simp [run_pure]
  | false =>
    cases dryRun with
    | true =>
      rw [commit_dryRun tools verbose file hsubs]
      refine ⟨.refl s.cache, rfl, fun path replacement h => ?_, fun path replacement => ?_⟩
      · simp at h
      · simp
    | false =>
      obtain ⟨hgrows, hknown, hdropped⟩ := undownloadable_spec tools subs.entries s
      rcases commit_cases tools verbose file hsubs s with
        ⟨hlost, hcommit⟩ | ⟨-, t, -, hcache, hcommit⟩
      · rw [hcommit]
        exact ⟨hgrows, .of_live rfl (eq_empty_of_isEmpty hlost).symm hknown hdropped⟩
      · rw [hcommit]
        simp only [cache_write, hcache]
        exact ⟨hgrows, .of_live (reportOf_file ..) (reportOf_substitutions ..) hknown hdropped⟩

end PinnedImports.Pass
