import PinnedImports.Proofs.Pass.Downloads
import PinnedImports.Proofs.Repetitions
import PinnedImports.Proofs.Storage.Replacement

/-!
# What a commit does, and what it reports

A commit downloads the paths that take the place of others, as far as nothing is remembered of them: each
once, in the order in which they come (`undownloadable_fetches`). What comes of a path decides whether its
substitution is in force or dropped. Then the file is replaced by its text with the substitutions that
are in force, or nothing is changed (`commit_accounts`).
-/

set_option autoImplicit false

namespace PinnedImports

/-! ## Downloads in a row -/

/-- The paths whose download is not remembered, each once and in the order they come. -/
def Cache.missing (cache : Cache) (paths : List String) : List String :=
  (paths.filter fun path => (cache.downloads.get? path).isNone).eraseDups

namespace Cache

theorem nodup_missing (cache : Cache) (paths : List String) : (cache.missing paths).Nodup :=
  nodup_eraseDups _

theorem mem_missing {cache : Cache} {paths : List String} {path : String} :
    path ∈ cache.missing paths ↔ path ∈ paths ∧ cache.downloads.get? path = none := by
  rw [missing, List.mem_eraseDups, List.mem_filter, Option.isNone_iff_eq_none]

theorem missing_cons_of_known {cache : Cache} {path : String} {outcome : Download}
    (h : cache.downloads.get? path = some outcome) (rest : List String) :
    cache.missing (path :: rest) = cache.missing rest :=
  Dictionary.missing_cons_of_known h rest

/-- Behind the download of a path nothing is missing of it. -/
theorem missing_cons_of_unknown {cache : Cache} {path : String}
    (h : cache.downloads.get? path = none) (outcome : Download) (rest : List String) :
    cache.missing (path :: rest) = path ::
      Cache.missing { cache with downloads := cache.downloads.insert path outcome } rest :=
  Dictionary.missing_cons_of_unknown h outcome rest

end Cache

variable {σ : Type}

/-- The outcomes of downloads, one after the other, and the world behind them. -/
def downloadEach (downloader : String → σ → Download × σ) :
    List String → σ → List (String × Download) × σ
  | [], world => ([], world)
  | path :: rest, world =>
    let first := downloader path world
    let others := downloadEach downloader rest first.2
    ((path, first.1) :: others.1, others.2)

namespace Pass

open Session Storage

/-- Between two sessions some paths have been asked for, and those have been downloaded of which
nothing was remembered. -/
structure Fetches (tools : Collaborators σ) (paths : List String) (s t : Session σ) : Prop where
  world : t.world =
    (downloadEach (tools.downloader s.files) (s.cache.missing paths) s.world).2
  /-- Remembered outcomes are kept, and the others are those of the downloads. -/
  outcomes : ∀ path, t.cache.downloads.get? path = (s.cache.downloads.get? path).or
    ((downloadEach (tools.downloader s.files) (s.cache.missing paths) s.world).1.lookup path)
  records : t.cache.records = s.cache.records

theorem Fetches.refl (tools : Collaborators σ) (s : Session σ) : Fetches tools [] s s :=
  ⟨rfl, fun _ => (Option.or_none ..).symm, rfl⟩

/-- A path is asked for before others. -/
theorem Fetches.cons {tools : Collaborators σ} {path : String} {rest : List String}
    {s s₁ t : Session σ} (hcache : s₁.cache = (download tools path s).2.cache)
    (hworld : s₁.world = (download tools path s).2.world) (hfiles : s₁.files = s.files)
    (h : Fetches tools rest s₁ t) : Fetches tools (path :: rest) s t := by
  obtain ⟨hlast, houtcomes, hrecords⟩ := h
  -- The downloader looks at the files, so they have to be the same for all downloads.
  rw [hfiles] at hlast houtcomes
  unfold download Cache.download at hcache hworld
  cases hknown : s.cache.downloads.get? path with
  | some outcome =>
    -- A remembered path changes neither the cache nor the world, and it is not missing.
    rw [hknown] at hcache hworld
    simp only at hcache hworld
    rw [hcache] at hlast houtcomes hrecords
    rw [hworld] at hlast houtcomes
    refine ⟨?_, ?_, hrecords⟩
    · rw [Cache.missing_cons_of_known hknown]
      exact hlast
    · rw [Cache.missing_cons_of_known hknown]
      exact houtcomes
  | none =>
    -- The path is the first that is missing; later on it is remembered, whatever came of it.
    rw [hknown] at hcache hworld
    simp only at hcache hworld
    rw [hcache] at hlast houtcomes hrecords
    rw [hworld] at hlast houtcomes
    have hmissing := Cache.missing_cons_of_unknown hknown
      (tools.downloader s.files path s.world).1 rest
    refine ⟨?_, fun other => ?_, hrecords⟩
    · rw [hmissing]
      exact hlast
    · rw [hmissing, houtcomes other, downloadEach, List.lookup_cons, Dictionary.get?_insert]
      by_cases heq : other = path
      · rw [if_pos heq, heq, hknown, beq_self_eq_true]
        rfl
      · rw [if_neg heq, beq_false_of_ne heq]

/-! ## The downloads of a commit -/

/-- A path is downloaded, the operator is told if that fails, and then the others are downloaded. -/
theorem undownloadable_cons (tools : Collaborators σ) (path replacement : String)
    (rest : List (String × String)) (s : Session σ) :
    ∃ s₁ : Session σ, s₁.cache = (download tools replacement s).2.cache ∧
      s₁.world = (download tools replacement s).2.world ∧ s₁.files = s.files ∧
      undownloadable tools ((path, replacement) :: rest) s =
        ((if (download tools replacement s).1 = .fetched then [] else [path]) ++
          (undownloadable tools rest s₁).1, (undownloadable tools rest s₁).2) := by
  rw [undownloadable, run_bind]
  cases (download tools replacement s).1 with
  | fetched => exact ⟨(download tools replacement s).2, rfl, rfl, rfl, rfl⟩
  | failed message => exact ⟨_, cache_notify tools _ _, rfl, rfl, rfl⟩

/-- **The downloads of a commit are those that are missing.** -/
theorem undownloadable_fetches (tools : Collaborators σ) (entries : List (String × String))
    (s : Session σ) :
    Fetches tools (entries.map (·.2)) s (undownloadable tools entries s).2 := by
  induction entries generalizing s with
  | nil => exact .refl tools s
  | cons entry rest ih =>
    obtain ⟨path, replacement⟩ := entry
    obtain ⟨s₁, hcache, hworld, hfiles, hrun⟩ := undownloadable_cons tools path replacement rest s
    rw [hrun]
    exact .cons hcache hworld hfiles (ih s₁)

/-- The list holds, in their order, the paths whose replacement has not been downloaded. -/
theorem undownloadable_eq_filter (tools : Collaborators σ) (entries : List (String × String))
    (s : Session σ) :
    (undownloadable tools entries s).1 = (entries.filter fun entry =>
      !decide ((undownloadable tools entries s).2.cache.downloads.get? entry.2 =
        some .fetched)).map (·.1) := by
  induction entries generalizing s with
  | nil => rfl
  | cons entry rest ih =>
    obtain ⟨path, replacement⟩ := entry
    obtain ⟨s₁, hcache, -, -, hrun⟩ := undownloadable_cons tools path replacement rest s
    obtain ⟨-, houtcome⟩ := download_spec tools replacement s
    obtain ⟨hgrows, -⟩ := undownloadable_spec tools rest s₁
    -- The outcome of the first download is still remembered behind the others.
    rw [hcache] at hgrows
    have hfirst := hgrows.downloads _ _ houtcome
    rw [hrun, List.filter_cons]
    simp only
    rw [hfirst, ih s₁]
    by_cases hfetched : (download tools replacement s).1 = .fetched
    · rw [if_pos hfetched, hfetched]
      rfl
    · have hlost : (!decide (some (download tools replacement s).1 = some .fetched)) = true := by
        simp [hfetched]
      rw [if_neg hfetched, if_pos hlost]
      rfl

/-- A commit with substitutions downloads, and then it does nothing, replaces the file, or fails to. What
it tells changes nothing but the transcript. -/
theorem commit_effect (tools : Collaborators σ) (verbose : Bool) (file : SourceFile)
    {subs : Dictionary String} (hsubs : subs.isEmpty = false) (s : Session σ) :
    let found := undownloadable tools subs.entries s
    let live := subs.filter fun path _ => !found.1.contains path
    let asked := tools.disk file.path found.2.world
    (live.isEmpty = true ∧ commit tools false verbose file subs s =
        ({ file := file.path, dropped := found.1 }, found.2)) ∨
      live.isEmpty = false ∧ ∃ transcript,
        ((∃ files, found.2.files.replaceText file.path
              (Imports.render file.text live file.source.imports) asked.1 = .ok files ∧
            commit tools false verbose file subs s =
              ({ file := file.path, substitutions := live, dropped := found.1, written := true },
                { found.2 with files := files, transcript := transcript, world := asked.2 })) ∨
          ∃ cause, found.2.files.replaceText file.path
              (Imports.render file.text live file.source.imports) asked.1 = .error cause ∧
            commit tools false verbose file subs s =
              ({ file := file.path, substitutions := live, dropped := found.1,
                 error := some cause.message },
                { found.2 with transcript := transcript, world := asked.2 })) := by
  intro found live asked
  rw [commit_eq tools verbose file hsubs]
  cases hlive : live.isEmpty with
  | true =>
    refine .inl ⟨rfl, ?_⟩
    simp only
    rw [if_pos hlive]
  | false =>
    refine .inr ⟨rfl, ?_⟩
    have htold : ∃ transcript, (if verbose then
        (tell (.ofOut (substitutionTable tools.palette "rewrite" file.path live)) found.2).2
      else found.2) = { found.2 with transcript := transcript } := by
      split
      · exact ⟨_, rfl⟩
      · exact ⟨_, rfl⟩
    obtain ⟨transcript, htold⟩ := htold
    have hasked : refusals tools file.path { found.2 with transcript := transcript } =
        (asked.1, { found.2 with transcript := transcript, world := asked.2 }) := rfl
    simp only
    rw [if_neg (Bool.eq_false_iff.1 hlive), htold, write_eq, hasked]
    simp only
    cases hreplace : found.2.files.replaceText file.path
        (Imports.render file.text live file.source.imports) asked.1 with
    | ok files => exact ⟨transcript, .inl ⟨files, rfl, rfl⟩⟩
    | error cause => exact ⟨_, .inr ⟨cause, rfl, rfl⟩⟩

/-! ## The account of a commit -/

/-- How substitutions are accounted for when their paths are downloaded between two sessions: those in
`live` are in force, and the paths in `dropped` have lost theirs. -/
structure Accounts (tools : Collaborators σ) (subs : Dictionary String) (s t : Session σ)
    (live : Dictionary String) (dropped : List String) : Prop where
  /-- The downloader has been called for the paths of which nothing was remembered. -/
  fetches : Fetches tools (subs.entries.map (·.2)) s t
  called : ∀ replacement, replacement ∈ s.cache.missing (subs.entries.map (·.2)) ↔
    (∃ path, subs.get? path = some replacement) ∧ s.cache.downloads.get? replacement = none
  calledOnce : (s.cache.missing (subs.entries.map (·.2))).Nodup
  /-- Something has come of each path, now or before. -/
  answered : ∀ path replacement, subs.get? path = some replacement →
    ∃ outcome, t.cache.downloads.get? replacement = some outcome
  live_eq : live =
    subs.filter fun _ replacement => t.cache.downloads.get? replacement = some .fetched
  dropped_iff : ∀ path, path ∈ dropped ↔ ∃ replacement message,
    subs.get? path = some replacement ∧
      t.cache.downloads.get? replacement = some (.failed message)
  /-- Each path keeps its substitution or is dropped, and once. -/
  partition : (live.keys ++ dropped).Perm subs.keys

/-- **What could not be downloaded is dropped, and nothing else.** -/
theorem undownloadable_accounts (tools : Collaborators σ) (subs : Dictionary String)
    (s : Session σ) :
    Accounts tools subs s (undownloadable tools subs.entries s).2
      (subs.filter fun path _ => !(undownloadable tools subs.entries s).1.contains path)
      (undownloadable tools subs.entries s).1 := by
  obtain ⟨-, hknown, hdropped⟩ := undownloadable_spec tools subs.entries s
  have hlive := live_eq hknown hdropped
  refine ⟨undownloadable_fetches tools subs.entries s, ?_, s.cache.nodup_missing _, ?_, hlive, ?_, ?_⟩
  · intro replacement
    rw [Cache.mem_missing, List.mem_map]
    apply and_congr_left
    intro _
    constructor
    · rintro ⟨⟨path, _⟩, hmem, rfl⟩
      exact ⟨path, Dictionary.mem_entries.1 hmem⟩
    · rintro ⟨path, hsub⟩
      exact ⟨(path, replacement), Dictionary.mem_entries.2 hsub, rfl⟩
  · intro path replacement hsub
    exact hknown _ (Dictionary.mem_entries.2 hsub)
  · intro path
    simp only [hdropped, Dictionary.mem_entries]
  · -- The two lists come of one question, asked of each entry.
    have hlist := undownloadable_eq_filter tools subs.entries s
    rw [hlive, Dictionary.keys, Dictionary.keys, Dictionary.filter, hlist, ← List.map_append]
    apply List.Perm.map
    exact List.filter_append_perm _ _

/-- What a commit does behind its downloads, as its report says: `text` takes the place of the file, or
nothing is changed. -/
structure Effect (tools : Collaborators σ) (path text : String) (found after : Session σ)
    (report : FileReport) : Prop where
  cache : after.cache = found.cache
  /-- A file is written only if the disk refuses no step. -/
  written : report.written = true →
    report.substitutions.isEmpty = false ∧ report.error = none ∧
      (∀ step, (tools.disk path found.world).1 step = none) ∧
      Node.Replaced path text found.files after.files
  /-- Nothing is changed when nothing is left to substitute, and when a step of the replacement is refused
  or fails. -/
  unwritten : report.written = false → after.files = found.files ∧
    (report.substitutions.isEmpty = true ∧ report.error = none ∨
      report.substitutions.isEmpty = false ∧ ∃ cause,
        found.files.replaceText path text (tools.disk path found.world).1 = .error cause ∧
          report.error = some cause.message)

/-- With nothing left to substitute nothing is changed. -/
theorem effect_of_nothing {tools : Collaborators σ} {path text : String} {found : Session σ}
    {report : FileReport} (hempty : report.substitutions.isEmpty = true)
    (hunwritten : report.written = false) (hquiet : report.error = none) :
    Effect tools path text found found report where
  cache := rfl
  written hwritten := by
    rw [hunwritten] at hwritten
    exact absurd hwritten Bool.false_ne_true
  unwritten _ := ⟨rfl, .inl ⟨hempty, hquiet⟩⟩

end Pass

end PinnedImports
