import Mathlib.Data.List.Forall2
import PinnedImports.Proofs.Pass.Atomicity
import PinnedImports.Proofs.Repetitions

/-!
# Sharing a cache between packages

When the registry, the downloads and the package names are fixed functions, a cache holds nothing but
what would be answered again (`Cache.Sound`). A run that shares one cache between its packages then
does what the same run does with an empty cache for each package, only with fewer requests and
downloads (`run_sharing`). The operator may answer as he likes, and the disk refuse what it likes.
-/

set_option autoImplicit false

namespace PinnedImports

open Registry

/-! ## Answers that are fixed functions -/

/-- The first failure among the answers to some requests. -/
def firstFailure? (record : Request → Except Failure Record) (requests : List Request) :
    Option Failure :=
  requests.findSome? fun request =>
    match record request with
    | .error failure => some failure
    | .ok _ => none

theorem mapM_eq_ok_iff {record : Request → Except Failure Record} {requests : List Request}
    {records : List Record} :
    requests.mapM record = .ok records ↔ requests.map record = records.map .ok := by
  induction requests generalizing records with
  | nil => simp [pure, Except.pure, eq_comm]
  | cons request rest ih =>
    rw [List.mapM_cons, List.map_cons]
    cases record request with
    | error failure => cases records <;> simp [bind, Except.bind]
    | ok first =>
      cases hrest : rest.mapM record with
      | error failure =>
        have hnot : ∀ others : List Record, ¬ rest.map record = others.map .ok :=
          fun others h => by simpa [hrest] using ih.2 h
        cases records <;> simp [bind, Except.bind, hnot]
      | ok others =>
        have hothers := ih.1 hrest
        cases records with
        | nil => simp [bind, Except.bind, pure, Except.pure]
        | cons r rs =>
          rw [List.map_cons, hothers]
          simp only [bind, Except.bind, pure, Except.pure, Except.ok.injEq, List.cons.injEq]
          rw [List.map_inj_right fun _ _ h => Except.ok.inj h]

theorem mapM_eq_error_iff {record : Request → Except Failure Record} {requests : List Request}
    {failure : Failure} :
    requests.mapM record = .error failure ↔ firstFailure? record requests = some failure := by
  induction requests with
  | nil => simp [firstFailure?, pure, Except.pure]
  | cons request rest ih =>
    rw [List.mapM_cons, firstFailure?, List.findSome?_cons]
    cases record request with
    | error first => simp [bind, Except.bind]
    | ok first =>
      simp only
      rw [← firstFailure?, ← ih]
      cases rest.mapM record <;> simp [bind, Except.bind, pure, Except.pure]

/-! ## Caches of true answers -/

namespace Cache

variable {record : Request → Except Failure Record} {outcome : String → Download}

/-- What the cache holds is what would be answered again. -/
structure Sound (record : Request → Except Failure Record) (outcome : String → Download)
    (cache : Cache) : Prop where
  records : ∀ request answer, cache.record? request = some answer → record request = .ok answer
  downloads : ∀ path answer, cache.downloads.get? path = some answer → answer = outcome path

theorem sound_empty : (∅ : Cache).Sound record outcome where
  records request answer h := by
    change ([] : List (Request × Record)).lookup request = some answer at h
    simp at h
  downloads path answer h := by
    change (∅ : Dictionary Download).get? path = some answer at h
    simp at h

theorem empty_grows (cache : Cache) : (∅ : Cache).Grows cache where
  records request answer h := by
    change ([] : List (Request × Record)).lookup request = some answer at h
    simp at h
  downloads path answer h := by
    change (∅ : Dictionary Download).get? path = some answer at h
    simp at h

/-- A request that is not pending would not have failed, so the first failure stays the same. -/
theorem Sound.firstFailure?_pending {cache : Cache} (h : cache.Sound record outcome)
    (requests : List Request) :
    firstFailure? record (cache.pending requests) = firstFailure? record requests := by
  rw [firstFailure?, pending, findSome?_eraseDups]
  apply findSome?_filter_of_none
  intro request _ hknown
  rw [← Bool.not_eq_true, Option.isNone_iff_eq_none, ← ne_eq, Option.ne_none_iff_exists'] at hknown
  obtain ⟨answer, hanswer⟩ := hknown
  rw [h.records request answer hanswer]

theorem lookup_zip_of_map_eq {requests : List Request} {records : List Record}
    (h : requests.map record = records.map .ok) {request : Request} {answer : Record}
    (hanswer : (requests.zip records).lookup request = some answer) :
    record request = .ok answer := by
  induction requests generalizing records with
  | nil => simp at hanswer
  | cons first rest ih =>
    cases records with
    | nil => simp at h
    | cons r rs =>
      simp only [List.map_cons, List.cons.injEq] at h
      rw [List.zip_cons_cons, List.lookup_cons] at hanswer
      by_cases hfirst : request = first
      · rw [hfirst, beq_self_eq_true, Option.some.injEq] at hanswer
        rw [hfirst, h.1, hanswer]
      · rw [beq_false_of_ne hfirst] at hanswer
        exact ih h.2 hanswer

/-- The cache behind a batch. -/
def resolved (record : Request → Except Failure Record) (cache : Cache)
    (requests : List Request) : Cache :=
  match (cache.pending requests).mapM record with
  | .ok records => cache.learn (cache.pending requests) records
  | .error _ => cache

theorem Sound.resolved {cache : Cache} (h : cache.Sound record outcome)
    (requests : List Request) : (cache.resolved record requests).Sound record outcome := by
  unfold Cache.resolved
  split
  · rename_i records hrecords
    refine ⟨fun request answer hanswer => ?_, h.downloads⟩
    rw [record?_learn, Option.or_eq_some_iff] at hanswer
    rcases hanswer with hanswer | ⟨-, hanswer⟩
    · exact h.records request answer hanswer
    · exact lookup_zip_of_map_eq (mapM_eq_ok_iff.1 hrecords) hanswer
  · exact h

/-- **A sound cache is not seen in the answer to a batch**: this is the answer of the registry. -/
theorem Sound.resolve_eq {σ : Type} {cache : Cache} (h : cache.Sound record outcome)
    {registry : List Request → σ → Except Failure (List Record) × σ}
    (hregistry : ∀ batch world, (registry batch world).1 = batch.mapM record)
    (requests : List Request) (world : σ) :
    cache.resolve registry requests world =
      (requests.mapM record, cache.resolved record requests,
        if cache.pending requests = [] then world
        else (registry (cache.pending requests) world).2) := by
  have hfailure := h.firstFailure?_pending requests
  cases hpending : (cache.pending requests).mapM record with
  | error failure =>
    -- The batch is not empty, or it would not fail.
    have hnonempty : cache.pending requests ≠ [] := by
      intro hempty
      rw [hempty] at hpending
      simp [pure, Except.pure] at hpending
    have hall : requests.mapM record = .error failure :=
      mapM_eq_error_iff.2 (hfailure ▸ mapM_eq_error_iff.1 hpending)
    have hcache : cache.resolved record requests = cache := by rw [Cache.resolved, hpending]
    rw [hall, hcache, if_neg hnonempty, resolve]
    split
    · rename_i hempty
      exact absurd hempty hnonempty
    · have hreply := hregistry (cache.pending requests) world
      rw [hpending] at hreply
      generalize registry (cache.pending requests) world = reply at hreply ⊢
      obtain ⟨answer, world'⟩ := reply
      simp only at hreply
      rw [hreply]
  | ok records =>
    have hmap := mapM_eq_ok_iff.1 hpending
    have hlength : records.length = (cache.pending requests).length := by
      simpa using (congrArg List.length hmap).symm
    have hcache : cache.resolved record requests =
        cache.learn (cache.pending requests) records := by rw [Cache.resolved, hpending]
    have hanswers : requests.mapM record =
        .ok ((cache.resolved record requests).answers requests) := by
      rw [mapM_eq_ok_iff, answers, List.map_map]
      apply List.map_congr_left
      intro request hrequest
      obtain ⟨answer, hanswer⟩ := exists_record_of_learn hlength hrequest
      rw [← hcache] at hanswer
      rw [(h.resolved requests).records request answer hanswer, Function.comp_apply, hanswer,
        Option.getD_some]
    rw [hanswers, resolve]
    split
    · rename_i hempty
      rw [hempty] at hpending
      have hnil : cache.resolved record requests = cache := by
        rw [Cache.resolved, hempty]
        simp [pure, Except.pure, learn]
      rw [hnil, if_pos hempty]
    · rename_i hnonempty
      have hreply := hregistry (cache.pending requests) world
      rw [hpending] at hreply
      rw [if_neg fun hempty => hnonempty hempty]
      generalize registry (cache.pending requests) world = reply at hreply ⊢
      obtain ⟨answer, world'⟩ := reply
      simp only at hreply
      simp only [hreply, if_pos hlength, hcache]

/-- A batch that is answered is known afterwards. -/
theorem Sound.exists_record_resolved {cache : Cache} (h : cache.Sound record outcome)
    {requests : List Request} {records : List Record} (hall : requests.mapM record = .ok records)
    {request : Request} (hrequest : request ∈ requests) :
    ∃ answer, (cache.resolved record requests).record? request = some answer := by
  cases hpending : (cache.pending requests).mapM record with
  | error failure =>
    have hfailure := mapM_eq_error_iff.1 hpending
    rw [h.firstFailure?_pending, ← mapM_eq_error_iff, hall] at hfailure
    simp at hfailure
  | ok answers =>
    rw [Cache.resolved, hpending]
    apply exists_record_of_learn _ hrequest
    simpa using (congrArg List.length (mapM_eq_ok_iff.1 hpending)).symm

/-- A cache that holds more has fewer requests pending. -/
theorem Grows.pending_sublist {small large : Cache} (h : small.Grows large)
    (requests : List Request) : (large.pending requests).Sublist (small.pending requests) := by
  rw [pending, pending, eraseDups_filter, eraseDups_filter]
  apply List.monotone_filter_right
  intro request hunknown
  rw [Option.isNone_iff_eq_none] at hunknown ⊢
  by_contra hknown
  obtain ⟨answer, hanswer⟩ := Option.ne_none_iff_exists'.1 hknown
  rw [h.records request answer hanswer] at hunknown
  simp at hunknown

/-- What the smaller cache learns from a batch, the larger one learns or knows. -/
theorem Grows.resolved {small large : Cache} (h : small.Grows large)
    (hsmall : small.Sound record outcome) (hlarge : large.Sound record outcome)
    (requests : List Request) :
    (small.resolved record requests).Grows (large.resolved record requests) := by
  have hkept : large.Grows (large.resolved record requests) := by
    unfold Cache.resolved
    split
    · exact grows_learn ..
    · exact .refl large
  cases hpending : (small.pending requests).mapM record with
  | error failure =>
    rw [Cache.resolved.eq_def record small, hpending]
    exact h.trans hkept
  | ok answers =>
    have hfailure := hsmall.firstFailure?_pending requests
    have hlearned := hsmall.resolved requests
    rw [Cache.resolved.eq_def record small, hpending] at hlearned ⊢
    refine ⟨fun request answer hanswer => ?_, fun path found hfound =>
      hkept.downloads path found (h.downloads path found hfound)⟩
    have htrue := hlearned.records request answer hanswer
    rw [record?_learn, Option.or_eq_some_iff] at hanswer
    rcases hanswer with hold | ⟨hnew, hzip⟩
    · exact hkept.records request answer (h.records request answer hold)
    · have hrequest : request ∈ requests := by
        obtain ⟨before, after, hsplit, -⟩ := List.lookup_eq_some_iff.1 hzip
        have hmem : (request, answer) ∈ (small.pending requests).zip answers := by simp [hsplit]
        exact (mem_pending.1 (List.of_mem_zip hmem).1).1
      cases hall : requests.mapM record with
      | error failure =>
        rw [mapM_eq_error_iff, ← hfailure, ← mapM_eq_error_iff, hpending] at hall
        simp at hall
      | ok records =>
        obtain ⟨other, hother⟩ := hlarge.exists_record_resolved hall hrequest
        have hsame := (hlarge.resolved requests).records request other hother
        rw [htrue, Except.ok.injEq] at hsame
        rw [hother, hsame]

end Cache

namespace Pass

open Session

/-- Services that answer the same question always in the same way. Only the operator may change his
mind, and the disk may refuse at one time what it admits at another; their state is of type `γ`. -/
structure Services (γ : Type) where
  palette : Text.Palette
  record : Request → Except Failure Record
  name : Storage.Node → String → Analysis.NameAnswer × List Notice
  outcome : String → Download
  answer : Confirm.Prompt → γ → (Except String Confirm.Decision × Transcript) × γ
  disk : String → γ → Storage.Refusals × γ := fun _ operator => (.none, operator)

/-- The operator, and what the services have been asked so far. -/
structure Traffic (γ : Type) where
  operator : γ
  prompts : List Confirm.Prompt := []
  batches : List (List Request) := []
  downloads : List String := []

variable {γ : Type}

/-- The services as collaborators that write down what they are asked. A batch fails with the first
of its requests that fails. -/
def Services.tools (services : Services γ) : Collaborators (Traffic γ) where
  palette := services.palette
  registry batch world :=
    (batch.mapM services.record, { world with batches := world.batches ++ [batch] })
  names root path world := (services.name root path, world)
  downloader _ path world :=
    (services.outcome path, { world with downloads := world.downloads ++ [path] })
  gate prompt world :=
    ((services.answer prompt world.operator).1,
      { world with
        operator := (services.answer prompt world.operator).2
        prompts := world.prompts ++ [prompt] })
  disk path world :=
    ((services.disk path world.operator).1,
      { world with operator := (services.disk path world.operator).2 })

/-- The first session is that of the second with a larger cache: it got to the same point with no
more traffic. Some of its batches are missing, and the others may lack some requests. -/
structure Shares (services : Services γ) (s t : Session (Traffic γ)) : Prop where
  files : s.files = t.files
  transcript : s.transcript = t.transcript
  operator : s.world.operator = t.world.operator
  prompts : s.world.prompts = t.world.prompts
  batches : List.SublistForall₂ List.Sublist s.world.batches t.world.batches
  downloads : s.world.downloads.Sublist t.world.downloads
  sound : s.cache.Sound services.record services.outcome
  sound_small : t.cache.Sound services.record services.outcome
  grows : t.cache.Grows s.cache

variable {services : Services γ}

theorem sublistForall₂_append_singleton {α : Type} {as bs : List (List α)} {a b : List α}
    (h : List.SublistForall₂ List.Sublist as bs) (hab : a.Sublist b) :
    List.SublistForall₂ List.Sublist (as ++ [a]) (bs ++ [b]) := by
  obtain ⟨cs, hcs, hsub⟩ := List.sublistForall₂_iff.1 h
  exact List.sublistForall₂_iff.2
    ⟨cs ++ [b], List.rel_append hcs (.cons hab .nil), hsub.append_right _⟩

theorem sublistForall₂_append_right {α : Type} {as bs : List (List α)}
    (h : List.SublistForall₂ List.Sublist as bs) (more : List (List α)) :
    List.SublistForall₂ List.Sublist as (bs ++ more) := by
  obtain ⟨cs, hcs, hsub⟩ := List.sublistForall₂_iff.1 h
  exact List.sublistForall₂_iff.2 ⟨cs, hcs, hsub.trans (List.sublist_append_left _ _)⟩

/-! ## What a run does to a session -/

theorem Services.resolve_eq (services : Services γ) {s : Session (Traffic γ)}
    (h : s.cache.Sound services.record services.outcome) (requests : List Request) :
    resolve services.tools requests s =
      (requests.mapM services.record,
        { s with
          cache := s.cache.resolved services.record requests
          world :=
            if s.cache.pending requests = [] then s.world
            else { s.world with batches := s.world.batches ++ [s.cache.pending requests] } }) := by
  have hregistry : ∀ batch world, (services.tools.registry batch world).1 =
      batch.mapM services.record := fun _ _ => rfl
  rw [resolve, h.resolve_eq hregistry requests s.world]
  rfl

theorem shares_resolve (requests : List Request) :
    Simulates (Shares services) (resolve services.tools requests)
      (resolve services.tools requests) := by
  intro s t h
  rw [services.resolve_eq h.sound, services.resolve_eq h.sound_small]
  have hpending := h.grows.pending_sublist requests
  refine ⟨rfl, h.files, h.transcript, ?_, ?_, ?_, ?_, h.sound.resolved requests,
    h.sound_small.resolved requests, h.grows.resolved h.sound_small h.sound requests⟩
  · simp only
    split <;> split <;> exact h.operator
  · simp only
    split <;> split <;> exact h.prompts
  · simp only
    split
    · split
      · exact h.batches
      · exact sublistForall₂_append_right h.batches _
    · rename_i hasked
      rw [if_neg]
      · exact sublistForall₂_append_singleton h.batches hpending
      · intro hempty
        rw [hempty] at hpending
        exact hasked (List.sublist_nil.1 hpending)
  · simp only
    split <;> split <;> exact h.downloads

theorem shares_download (path : String) :
    Simulates (Shares services) (download services.tools path) (download services.tools path) := by
  intro s t h
  -- After the download both caches know the outcome, and it is the fixed one.
  have hlearned : ∀ {cache : Cache}, cache.Sound services.record services.outcome →
      Cache.Sound services.record services.outcome
        { cache with downloads := cache.downloads.insert path (services.outcome path) } := by
    intro cache hsound
    refine ⟨hsound.records, fun other answer hanswer => ?_⟩
    rw [Dictionary.get?_insert] at hanswer
    split at hanswer
    · rename_i hpath
      rw [hpath]
      exact (Option.some.inj hanswer).symm
    · exact hsound.downloads other answer hanswer
  unfold download Cache.download
  cases hlarge : s.cache.downloads.get? path with
  | some answer =>
    have hanswer := h.sound.downloads path answer hlarge
    subst hanswer
    cases hsmall : t.cache.downloads.get? path with
    | some other =>
      have hother := h.sound_small.downloads path other hsmall
      exact ⟨hother.symm, h⟩
    | none =>
      refine ⟨rfl, h.files, h.transcript, h.operator, h.prompts, h.batches,
        h.downloads.trans (List.sublist_append_left _ _), h.sound, hlearned h.sound_small,
        h.grows.records, fun other found hfound => ?_⟩
      rw [Dictionary.get?_insert] at hfound
      split at hfound
      · rename_i hpath
        rw [hpath, hlarge, ← hfound]
        rfl
      · exact h.grows.downloads other found hfound
  | none =>
    cases hsmall : t.cache.downloads.get? path with
    | some other =>
      rw [h.grows.downloads path other hsmall] at hlarge
      simp at hlarge
    | none =>
      refine ⟨rfl, h.files, h.transcript, h.operator, h.prompts, h.batches,
        h.downloads.append (List.Sublist.refl _), hlearned h.sound, hlearned h.sound_small,
        h.grows.records, fun other found hfound => ?_⟩
      simp only [Services.tools] at hfound ⊢
      rw [Dictionary.get?_insert] at hfound ⊢
      split at hfound
      · rename_i hpath
        rwa [if_pos hpath]
      · rename_i hpath
        rw [if_neg hpath]
        exact h.grows.downloads other found hfound

theorem shares_ask (prompt : Confirm.Prompt) :
    Simulates (Shares services) (ask services.tools prompt) (ask services.tools prompt) := by
  intro s t h
  simp only [ask, Services.tools]
  rw [h.operator]
  refine ⟨rfl, h.files, ?_, rfl, ?_, h.batches, h.downloads, h.sound, h.sound_small, h.grows⟩
  · simp only [h.transcript]
  · simp only [h.prompts]

theorem shares_refusals (path : String) :
    Simulates (Shares services) (refusals services.tools path) (refusals services.tools path) := by
  intro s t h
  simp only [refusals, Services.tools]
  rw [h.operator]
  exact ⟨rfl, { h with operator := rfl }⟩

theorem shares_tell (more : Transcript) :
    Simulates (Shares services) (tell more) (tell more) := by
  intro s t h
  refine ⟨rfl, { h with transcript := ?_ }⟩
  change s.transcript ++ more = t.transcript ++ more
  rw [h.transcript]

theorem shares_lookup (path : String) :
    Simulates (Shares services) (lookup services.tools path) (lookup services.tools path) := by
  intro s t h
  have hlookup : ∀ u : Session (Traffic γ), lookup services.tools path u =
      ((services.name u.files path).1,
        (tell (.ofNotices services.palette (services.name u.files path).2) u).2) := fun _ => rfl
  rw [hlookup, hlookup, h.files]
  exact ⟨rfl, (shares_tell _ s t h).2⟩

theorem related_shares (services : Services γ) :
    Related (Shares services) services.tools services.tools where
  palette := rfl
  files _ _ h := h.files
  told := shares_tell
  lookup := shares_lookup
  resolve := shares_resolve
  download := shares_download
  ask := shares_ask
  refusals := shares_refusals
  exchange _ _ _ h := { h with files := rfl }

/-! ## Runs -/

/-- What two runs did one after the other. -/
def RunSummary.append (first second : RunSummary) : RunSummary where
  packages := first.packages ++ second.packages
  failed := first.failed ++ second.failed
  aborted := second.aborted

/-- The passes over some directories in order, up to one that is aborted, each with a cache that is
empty at first. -/
def runEach {σ : Type} (tools : Collaborators σ) (options : Options) :
    List String → StateM (Session σ) RunSummary
  | [] => pure { }
  | dir :: rest => do
    modify fun s => { s with cache := ∅ }
    let first ← run tools options [dir]
    if first.aborted then return first
    return first.append (← runEach tools options rest)

/-- A run goes on behind its first package as a run of its own. -/
theorem run_cons_eq {σ : Type} (tools : Collaborators σ) (options : Options) (dir : String)
    (rest : List String) (s : Session σ) :
    run tools options (dir :: rest) s =
      let first := run tools options [dir] s
      if first.1.aborted then first
      else
        let later := run tools options rest first.2
        (first.1.append later.1, later.2) := by
  have hall := run_cons tools options dir rest s
  have hone := run_cons tools options dir [] s
  simp only at hall hone ⊢
  rw [hall, hone]
  split
  · rfl
  · simp only [run, run_pure, RunSummary.append, List.append_nil, Bool.false_eq_true, if_false]

theorem runEach_cons {σ : Type} (tools : Collaborators σ) (options : Options) (dir : String)
    (rest : List String) (s : Session σ) :
    runEach tools options (dir :: rest) s =
      let first := run tools options [dir] { s with cache := ∅ }
      if first.1.aborted then first
      else
        let later := runEach tools options rest first.2
        (first.1.append later.1, later.2) := by
  have hemptied : runEach tools options (dir :: rest) s =
      (do
        let first ← run tools options [dir]
        if first.aborted then return first
        return first.append (← runEach tools options rest)) { s with cache := ∅ } := rfl
  rw [hemptied, run_bind]
  generalize run tools options [dir] { s with cache := ∅ } = first
  simp only
  split <;> rfl

theorem shares_run (options : Options) (dirs : List String) :
    ∀ s t, Shares services s t →
      (run services.tools options dirs s).1 = (runEach services.tools options dirs t).1 ∧
        Shares services (run services.tools options dirs s).2
          (runEach services.tools options dirs t).2 := by
  induction dirs with
  | nil =>
    intro s t h
    exact ⟨rfl, h⟩
  | cons dir rest ih =>
    intro s t h
    have hempty : Shares services s { t with cache := ∅ } :=
      { h with sound_small := Cache.sound_empty, grows := Cache.empty_grows s.cache }
    obtain ⟨hfirst, hafter⟩ := (related_shares services).run options [dir] s _ hempty
    rw [run_cons_eq, runEach_cons]
    simp only [hfirst]
    split
    · exact ⟨hfirst, hafter⟩
    · obtain ⟨hlater, hlast⟩ := ih _ _ hafter
      exact ⟨by rw [hlater], hlast⟩

/-- **Sharing a cache is seen in the traffic only.** With services that answer as fixed functions, a
run comes to the same summary, files and transcript, with the same questions to the operator, as the
passes over its directories each with an empty cache. Some of their batches are missing in it, the
others may lack requests, and downloads may be missing. -/
theorem run_sharing (services : Services γ) (options : Options) (dirs : List String)
    (files : Storage.Node) (operator : γ) :
    let start : Session (Traffic γ) := { files := files, world := { operator := operator } }
    let shared := run services.tools options dirs start
    let each := runEach services.tools options dirs start
    shared.1 = each.1 ∧
      shared.2.files = each.2.files ∧
      shared.2.transcript = each.2.transcript ∧
      shared.2.world.operator = each.2.world.operator ∧
      shared.2.world.prompts = each.2.world.prompts ∧
      List.SublistForall₂ List.Sublist shared.2.world.batches each.2.world.batches ∧
      shared.2.world.downloads.Sublist each.2.world.downloads := by
  intro start shared each
  have hstart : Shares services start start :=
    ⟨rfl, rfl, rfl, rfl, .nil, .refl _, Cache.sound_empty, Cache.sound_empty, .refl _⟩
  obtain ⟨hsummary, h⟩ := shares_run options dirs start start hstart
  exact ⟨hsummary, h.files, h.transcript, h.operator, h.prompts, h.batches, h.downloads⟩

end Pass

end PinnedImports
