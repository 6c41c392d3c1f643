import PinnedImports.Proofs.Pass.Simulation

/-!
# Passes that end without a commit

A pass that finds nothing, fails or is aborted has changed no file and asked for no download
(`onDirectory_uncommitted`). A run is a chain of such passes and of committed ones, each from the
session that the one before left (`Visits`), and its summary is read off this chain. An abort ends
the chain; a failure is told of and the chain goes on.
-/

set_option autoImplicit false

namespace PinnedImports.Pass

open Session

variable {σ : Type}

/-! ## What keeps a view of the session -/

/-- Every session keeps what is seen of it. -/
def Keeps {α β : Type} (view : Session σ → β) (m : StateM (Session σ) α) : Prop :=
  ∀ s, view (m s).2 = view s

section Keeps

variable {α β γ : Type} {view : Session σ → β} {tools : Collaborators σ}

theorem Keeps.pure (a : α) : Keeps view (Pure.pure a : StateM (Session σ) α) := fun _ => rfl

theorem Keeps.bind {m : StateM (Session σ) α} {f : α → StateM (Session σ) γ} (hm : Keeps view m)
    (hf : ∀ a, Keeps view (f a)) : Keeps view (m >>= f) := by
  intro s
  rw [run_bind]
  exact (hf (m s).1 (m s).2).trans (hm s)

theorem keeps_analyze (hlookup : ∀ path, Keeps view (lookup tools path)) (files : List SourceFile) :
    Keeps view (analyze tools files) := by
  intro s
  -- The relation to carry through is that the view is that of `s`.
  have hrelated : ∀ path (t t' : Session σ), (t = t' ∧ view t = view s) →
      (lookup tools path t).1 = (lookup tools path t').1 ∧
        ((lookup tools path t).2 = (lookup tools path t').2 ∧
          view (lookup tools path t).2 = view s) := by
    rintro path t t' ⟨rfl, hview⟩
    exact ⟨rfl, rfl, (hlookup path t).trans hview⟩
  exact (Analysis.ofFiles_related hrelated files ⟨rfl, rfl⟩).2.2

theorem keeps_choose (hnotify : ∀ notices, Keeps view (notify tools notices))
    (hask : ∀ prompt, Keeps view (ask tools prompt)) (options : Options) (package : String)
    (pairs : List (String × Registry.Record)) :
    ∀ choices, Keeps view (choose tools options package pairs choices) := by
  induction pairs with
  | nil => exact fun choices => .pure _
  | cons pair rest ih =>
    intro choices
    obtain ⟨key, record⟩ := pair
    rw [choose]
    split
    · exact (hnotify _).bind fun _ => ih _
    · split
      · apply (hask _).bind
        intro answer
        rcases answer with message | _ | _ | _
        · exact .pure _
        · exact ih _
        · exact ih _
        · exact .pure _
      · exact ih _

theorem keeps_undownloadable (hnotify : ∀ notices, Keeps view (notify tools notices))
    (hdownload : ∀ path, Keeps view (download tools path)) (entries : List (String × String)) :
    Keeps view (undownloadable tools entries) := by
  induction entries with
  | nil => exact .pure _
  | cons entry rest ih =>
    obtain ⟨path, replacement⟩ := entry
    rw [undownloadable]
    apply (hdownload replacement).bind
    intro outcome
    cases outcome with
    | fetched => exact ih
    | failed message => exact (hnotify _).bind fun _ => ih.bind fun _ => .pure _

end Keeps

/-! ## What leaves the files as they are -/

/-- Every session keeps its files. -/
def KeepsFiles {α : Type} (m : StateM (Session σ) α) : Prop := ∀ s, (m s).2.files = s.files

theorem KeepsFiles.pure {α : Type} (a : α) :
    KeepsFiles (Pure.pure a : StateM (Session σ) α) := fun _ => rfl

theorem KeepsFiles.bind {α β : Type} {m : StateM (Session σ) α} {f : α → StateM (Session σ) β}
    (hm : KeepsFiles m) (hf : ∀ a, KeepsFiles (f a)) : KeepsFiles (m >>= f) :=
  Keeps.bind hm hf

theorem keepsFiles_notify (tools : Collaborators σ) (notices : List Notice) :
    KeepsFiles (notify tools notices) := fun _ => rfl

theorem keepsFiles_ask (tools : Collaborators σ) (prompt : Confirm.Prompt) :
    KeepsFiles (ask tools prompt) := fun _ => rfl

theorem keepsFiles_resolve (tools : Collaborators σ) (requests : List Registry.Request) :
    KeepsFiles (resolve tools requests) := fun _ => rfl

theorem keepsFiles_analyze (tools : Collaborators σ) (files : List SourceFile) :
    KeepsFiles (analyze tools files) :=
  keeps_analyze (fun _ _ => rfl) files

theorem keepsFiles_choose (tools : Collaborators σ) (options : Options) (package : String)
    (pairs : List (String × Registry.Record)) (choices : Choices) :
    KeepsFiles (choose tools options package pairs choices) :=
  keeps_choose (keepsFiles_notify tools) (keepsFiles_ask tools) options package pairs choices

theorem keepsFiles_undownloadable (tools : Collaborators σ) (entries : List (String × String)) :
    KeepsFiles (undownloadable tools entries) :=
  keeps_undownloadable (keepsFiles_notify tools) (fun _ _ => rfl) entries

/-! ## What asks for no download -/

/-- The collaborators with another downloader. -/
def Collaborators.withDownloader (tools : Collaborators σ)
    (downloader : Storage.Node → String → σ → Download × σ) : Collaborators σ :=
  { tools with downloader := downloader }

theorem choose_withDownloader (tools : Collaborators σ)
    (downloader : Storage.Node → String → σ → Download × σ) (options : Options) (package : String)
    (pairs : List (String × Registry.Record)) :
    ∀ choices, choose (tools.withDownloader downloader) options package pairs choices =
      choose tools options package pairs choices := by
  induction pairs with
  | nil => exact fun choices => rfl
  | cons pair rest ih =>
    intro choices
    obtain ⟨key, record⟩ := pair
    rw [choose, choose]
    simp only [ih]
    rfl

/-! ## One pass -/

/-- A pass that did not end with a commit. -/
def Uncommitted (result : Except PassError Outcome) : Prop :=
  ∀ summary, result ≠ .ok (.committed summary)

theorem pinEligible_uncommitted {tools : Collaborators σ} {options : Options} {package : Package}
    {analysis : Analysis} {s : Session σ}
    (h : Uncommitted (pinEligible tools options package analysis s).1) :
    (pinEligible tools options package analysis s).2.files = s.files ∧
      ∀ downloader, pinEligible (tools.withDownloader downloader) options package analysis s =
        pinEligible tools options package analysis s := by
  unfold pinEligible at h ⊢
  have hsame : ∀ downloader, resolve (tools.withDownloader downloader) (analysis.keys.map
      Registry.Request.latest) s = resolve tools (analysis.keys.map Registry.Request.latest) s :=
    fun _ => rfl
  simp only [run_bind, hsame, choose_withDownloader] at h ⊢
  have hresolved := keepsFiles_resolve tools (analysis.keys.map Registry.Request.latest) s
  generalize resolve tools (analysis.keys.map Registry.Request.latest) s = reply at h hresolved ⊢
  obtain ⟨failure | records, s₁⟩ := reply
  · exact ⟨hresolved, fun _ => rfl⟩
  · simp only at h hresolved ⊢
    rw [run_bind] at h
    have hchosen := keepsFiles_choose tools options package.name (analysis.keys.zip records) { } s₁
    simp only [run_bind]
    generalize choose tools options package.name (analysis.keys.zip records) { } s₁ = chosen
      at h hchosen ⊢
    obtain ⟨e | _ | choices, s₂⟩ := chosen
    · exact ⟨hchosen.trans hresolved, fun _ => rfl⟩
    · exact ⟨hchosen.trans hresolved, fun _ => rfl⟩
    · -- Files are written and downloads asked for only here, and then the pass ends with a commit.
      simp only at h
      split at h
      · exact absurd rfl (h _)
      · exact absurd rfl (h _)

theorem onPackage_uncommitted {tools : Collaborators σ} {options : Options} {package : Package}
    {s : Session σ} (h : Uncommitted (onPackage tools options package s).1) :
    (onPackage tools options package s).2.files = s.files ∧
      ∀ downloader, onPackage (tools.withDownloader downloader) options package s =
        onPackage tools options package s := by
  unfold onPackage at h ⊢
  have hsame : ∀ downloader, analyze (tools.withDownloader downloader) package.files s =
      analyze tools package.files s := fun _ => rfl
  simp only [run_bind, hsame] at h ⊢
  have hanalyzed := keepsFiles_analyze tools package.files s
  generalize analyze tools package.files s = judged at h hanalyzed ⊢
  obtain ⟨analysis, s₁⟩ := judged
  simp only at h hanalyzed ⊢
  have htold : ∀ downloader notices (t : Session σ),
      notify (tools.withDownloader downloader) notices t = notify tools notices t :=
    fun _ _ _ => rfl
  simp only [htold]
  have hfirst := keepsFiles_notify tools (analysisNotices options.verbose analysis) s₁
  generalize (notify tools (analysisNotices options.verbose analysis) s₁).2 = s₂ at h hfirst ⊢
  split at h
  · rename_i hempty
    simp only [if_pos hempty]
    exact ⟨hfirst.trans hanalyzed, fun _ => trivial⟩
  rename_i hempty
  simp only [if_neg hempty]
  split at h
  · rename_i hverbose
    simp only [if_pos hverbose, run_bind, htold]
    rw [run_bind] at h
    obtain ⟨hfiles, hdownloader⟩ := pinEligible_uncommitted h
    exact ⟨hfiles.trans (hfirst.trans hanalyzed), hdownloader⟩
  · rename_i hverbose
    simp only [if_neg hverbose]
    obtain ⟨hfiles, hdownloader⟩ := pinEligible_uncommitted h
    exact ⟨hfiles.trans (hfirst.trans hanalyzed), hdownloader⟩

/-- **A pass that does not end with a commit leaves the files as they are, and it comes out the same
whatever the downloader does.** -/
theorem onDirectory_uncommitted {tools : Collaborators σ} {options : Options} {dir : String}
    {s : Session σ} (h : Uncommitted (onDirectory tools options dir s).1) :
    (onDirectory tools options dir s).2.files = s.files ∧
      ∀ downloader, onDirectory (tools.withDownloader downloader) options dir s =
        onDirectory tools options dir s := by
  simp only [onDirectory_eq] at h ⊢
  rcases hload : Package.load s.files dir with cause | ⟨_ | package, notices⟩
  · exact ⟨rfl, fun _ => rfl⟩
  · exact ⟨rfl, fun _ => rfl⟩
  · rw [hload] at h
    obtain ⟨hfiles, hdownloader⟩ := onPackage_uncommitted h
    exact ⟨hfiles, hdownloader⟩

/-! ## The chain of passes of a run -/

/-- One pass of a run: its directory, how it ended, and the sessions before and behind it. -/
structure Visit (σ : Type) where
  dir : String
  result : Except PassError Outcome
  before : Session σ
  after : Session σ

namespace Visit

/-- The summary of a pass that ended with a commit. -/
def committed? (visit : Visit σ) : Option PackageSummary :=
  match visit.result with
  | .ok (.committed summary) => some summary
  | _ => none

/-- The entry of a pass that failed. -/
def failed? (visit : Visit σ) : Option FailedPackage :=
  match visit.result with
  | .error e => some ⟨visit.dir, e.message⟩
  | .ok _ => none

/-- Whether the operator aborted the pass. -/
def isAborted (visit : Visit σ) : Bool :=
  match visit.result with
  | .ok .aborted => true
  | _ => false

/-- The session that the next pass starts from: a failure has been told of. -/
def next (tools : Collaborators σ) (visit : Visit σ) : Session σ :=
  match visit.result with
  | .error e => (notify tools
      [⟨.error, "error rewriting package " ++ visit.dir ++ ": " ++ e.message⟩] visit.after).2
  | .ok _ => visit.after

/-- Telling of a failure changes nothing but what has been told. -/
theorem next_eq (tools : Collaborators σ) (visit : Visit σ) :
    ∃ transcript, visit.next tools = { visit.after with transcript := transcript } := by
  rw [next]
  split
  · exact ⟨_, rfl⟩
  · exact ⟨_, rfl⟩

end Visit

/-- Passes that follow each other from one session to another. Only the last one may be aborted. -/
inductive Visits (tools : Collaborators σ) (options : Options) :
    Session σ → List (Visit σ) → Session σ → Prop
  | done {s : Session σ} : Visits tools options s [] s
  | visit {visit : Visit σ} {later : List (Visit σ)} {last : Session σ} :
      onDirectory tools options visit.dir visit.before = (visit.result, visit.after) →
        (visit.isAborted = true → later = []) →
          Visits tools options (visit.next tools) later last →
            Visits tools options visit.before (visit :: later) last

theorem Visits.eq_of_nil {tools : Collaborators σ} {options : Options} {s last : Session σ}
    (h : Visits tools options s [] last) : last = s := by
  cases h
  rfl

/-- What a chain of passes did. -/
def RunSummary.ofVisits (visits : List (Visit σ)) : RunSummary where
  packages := visits.filterMap Visit.committed?
  failed := visits.filterMap Visit.failed?
  aborted := visits.any Visit.isAborted

/-- How a run goes on behind one pass. -/
theorem run_cons (tools : Collaborators σ) (options : Options) (dir : String) (rest : List String)
    (s : Session σ) :
    let visit : Visit σ := ⟨dir, (onDirectory tools options dir s).1, s,
      (onDirectory tools options dir s).2⟩
    run tools options (dir :: rest) s =
      if visit.isAborted then ({ aborted := true }, visit.after)
      else
        let later := run tools options rest (visit.next tools)
        ({ packages := visit.committed?.toList ++ later.1.packages
           failed := visit.failed?.toList ++ later.1.failed
           aborted := later.1.aborted }, later.2) := by
  rw [run, run_bind]
  generalize onDirectory tools options dir s = found
  obtain ⟨e | _ | summary | _, s'⟩ := found <;> rfl

/-- **A run is a chain of passes**, over all directories or up to the first that is aborted, and its
summary is read off the chain. -/
theorem exists_visits (tools : Collaborators σ) (options : Options) (dirs : List String) :
    ∀ s, ∃ visits, Visits tools options s visits (run tools options dirs s).2 ∧
      (run tools options dirs s).1 = .ofVisits visits ∧
      ∃ rest, dirs = visits.map (·.dir) ++ rest ∧
        ((run tools options dirs s).1.aborted = false → rest = []) := by
  induction dirs with
  | nil =>
    intro s
    exact ⟨[], .done, rfl, [], rfl, fun _ => rfl⟩
  | cons dir rest ih =>
    intro s
    have hrun := run_cons tools options dir rest s
    generalize hvisit : (⟨dir, (onDirectory tools options dir s).1, s,
      (onDirectory tools options dir s).2⟩ : Visit σ) = visit at hrun
    have hpass : onDirectory tools options visit.dir visit.before =
        (visit.result, visit.after) := by
      subst hvisit
      rfl
    have hdir : visit.dir = dir := by rw [← hvisit]
    have hbefore : visit.before = s := by rw [← hvisit]
    simp only at hrun
    split at hrun
    · rename_i haborted
      have hlast : visit.next tools = visit.after := by
        rw [Visit.isAborted] at haborted
        split at haborted
        · rename_i hresult
          rw [Visit.next, hresult]
        · simp at haborted
      have hdone : Visits tools options (visit.next tools) [] visit.after := hlast ▸ .done
      have hchain := Visits.visit hpass (fun _ => rfl) hdone
      rw [hbefore] at hchain
      rw [hrun]
      refine ⟨[visit], hchain, ?_, rest, by rw [← hdir]; rfl, by simp⟩
      have hresult : visit.result = .ok .aborted := by
        rw [Visit.isAborted] at haborted
        split at haborted
        · assumption
        · simp at haborted
      simp [RunSummary.ofVisits, Visit.committed?, Visit.failed?, Visit.isAborted, hresult]
    · rename_i haborted
      obtain ⟨visits, hvisits, hsummary, others, hothers, hall⟩ := ih (visit.next tools)
      have hchain := Visits.visit hpass (fun h => absurd h haborted) hvisits
      rw [hbefore] at hchain
      rw [hrun]
      refine ⟨visit :: visits, hchain, ?_, others, ?_, hall⟩
      · simp only [hsummary, RunSummary.ofVisits, List.filterMap_cons, List.any_cons]
        rw [Bool.not_eq_true] at haborted
        rw [haborted, Bool.false_or]
        congr 1
        · cases visit.committed? <;> rfl
        · cases visit.failed? <;> rfl
      · rw [List.map_cons, List.cons_append, hdir, ← hothers]

theorem Visit.isAborted_iff {visit : Visit σ} :
    visit.isAborted = true ↔ visit.result = .ok .aborted := by
  rw [isAborted]
  split
  · rename_i hresult
    simp [hresult]
  · rename_i hresult
    simp only [Bool.false_eq_true, false_iff]
    exact hresult

/-- Behind a chain that ends with an abort nothing is done, whatever directories are left. -/
theorem Visits.run_append {tools : Collaborators σ} {options : Options} {s last : Session σ}
    {visits : List (Visit σ)} (h : Visits tools options s visits last)
    (haborted : (RunSummary.ofVisits visits).aborted = true) (others : List String) :
    run tools options (visits.map (·.dir) ++ others) s = (.ofVisits visits, last) := by
  induction h with
  | done => simp [RunSummary.ofVisits] at haborted
  | @visit visit later last hpass hlast hlater ih =>
    have hrun := run_cons tools options visit.dir (later.map (·.dir) ++ others) visit.before
    simp only [hpass] at hrun
    rw [List.map_cons, List.cons_append, hrun]
    by_cases hself : visit.isAborted = true
    · have hresult := Visit.isAborted_iff.1 hself
      have hnil := hlast hself
      subst hnil
      rw [if_pos hself, hlater.eq_of_nil]
      simp [RunSummary.ofVisits, Visit.committed?, Visit.failed?, Visit.isAborted, Visit.next,
        hresult]
    · rw [if_neg hself]
      rw [Bool.not_eq_true] at hself
      have hrest : (RunSummary.ofVisits later).aborted = true := by
        simp only [RunSummary.ofVisits, List.any_cons] at haborted ⊢
        rwa [hself, Bool.false_or] at haborted
      rw [ih hrest]
      simp only [RunSummary.ofVisits, List.filterMap_cons, List.any_cons]
      rw [hself, Bool.false_or]
      congr 2
      · cases visit.committed? <;> rfl
      · cases visit.failed? <;> rfl

/-- A chain with an abort ends with it. -/
theorem Visits.exists_last {tools : Collaborators σ} {options : Options} {s last : Session σ}
    {visits : List (Visit σ)} (h : Visits tools options s visits last)
    (haborted : (RunSummary.ofVisits visits).aborted = true) :
    ∃ earlier final, visits = earlier ++ [final] ∧ final.result = .ok .aborted ∧
      (∀ visit ∈ earlier, visit.result ≠ .ok .aborted) ∧ last = final.after ∧
      onDirectory tools options final.dir final.before = (final.result, final.after) := by
  induction h with
  | done => simp [RunSummary.ofVisits] at haborted
  | @visit visit later last hpass hlast hlater ih =>
    by_cases hself : visit.isAborted = true
    · have hresult := Visit.isAborted_iff.1 hself
      have hnil := hlast hself
      subst hnil
      refine ⟨[], visit, rfl, hresult, by simp, ?_, hpass⟩
      rw [hlater.eq_of_nil, Visit.next, hresult]
    · have hrest : (RunSummary.ofVisits later).aborted = true := by
        rw [Bool.not_eq_true] at hself
        simp only [RunSummary.ofVisits, List.any_cons] at haborted ⊢
        rwa [hself, Bool.false_or] at haborted
      obtain ⟨earlier, final, hvisits, hresult, hearlier, hafter, hfinal⟩ := ih hrest
      refine ⟨visit :: earlier, final, by rw [hvisits]; rfl, hresult, ?_, hafter, hfinal⟩
      intro other hother
      rcases List.mem_cons.1 hother with rfl | hother
      · exact fun h => hself (Visit.isAborted_iff.2 h)
      · exact hearlier other hother

/-- **Aborts and failures are atomic.** A pass that finds nothing, fails or is aborted has changed no
file and asked for no download. A run makes one pass after another in the order of the directories,
each from the files, the cache and the world that the one before left, and tells of each failure in
one entry. It makes a pass in every directory, or up to the first that is aborted: then the run ends
with the files that this pass found and with nothing done for the directories behind it. -/
theorem run_atomic (tools : Collaborators σ) (options : Options) :
    (∀ dir s, Uncommitted (onDirectory tools options dir s).1 →
      (onDirectory tools options dir s).2.files = s.files ∧
        ∀ downloader, onDirectory (tools.withDownloader downloader) options dir s =
          onDirectory tools options dir s) ∧
    (∀ visit : Visit σ, ∃ transcript,
      visit.next tools = { visit.after with transcript := transcript }) ∧
    ∀ dirs s, ∃ visits,
      Visits tools options s visits (run tools options dirs s).2 ∧
      (run tools options dirs s).1 = .ofVisits visits ∧
      ((run tools options dirs s).1.aborted = false ∧ visits.map (·.dir) = dirs ∨
        (run tools options dirs s).1.aborted = true ∧
        ∃ earlier last rest, visits = earlier ++ [last] ∧ last.result = .ok .aborted ∧
          (∀ visit ∈ earlier, visit.result ≠ .ok .aborted) ∧
          dirs = visits.map (·.dir) ++ rest ∧
          (run tools options dirs s).2 = last.after ∧ last.after.files = last.before.files ∧
          ∀ others, run tools options (visits.map (·.dir) ++ others) s =
            run tools options dirs s) := by
  refine ⟨fun dir s => onDirectory_uncommitted, Visit.next_eq tools, fun dirs s => ?_⟩
  obtain ⟨visits, hvisits, hsummary, rest, hdirs, hall⟩ := exists_visits tools options dirs s
  refine ⟨visits, hvisits, hsummary, ?_⟩
  cases haborted : (run tools options dirs s).1.aborted with
  | false =>
    refine .inl ⟨rfl, ?_⟩
    rw [hall haborted, List.append_nil] at hdirs
    exact hdirs.symm
  | true =>
    rw [hsummary] at haborted
    obtain ⟨earlier, last, hlast, hresult, hearlier, hafter, hpass⟩ :=
      hvisits.exists_last haborted
    refine .inr ⟨rfl, earlier, last, rest, hlast, hresult, hearlier, hdirs, hafter, ?_, ?_⟩
    · have huncommitted : Uncommitted (onDirectory tools options last.dir last.before).1 := by
        rw [hpass, hresult]
        intro summary h
        simp at h
      have hfiles := (onDirectory_uncommitted huncommitted).1
      rwa [hpass] at hfiles
    · intro others
      have hrun := hvisits.run_append haborted
      rw [hrun others, hdirs, hrun rest]

/-- An operator who aborts at the first question. -/
def abortive : Collaborators Unit where
  palette := ⟨false⟩
  registry requests world :=
    (.ok (requests.map fun request =>
      { path := request.path, registryPath := "gopkgs.com/b", revision := "1" }), world)
  names _ _ world := ((.ok "b", []), world)
  downloader _ _ world := (.fetched, world)
  gate _ world := ((.ok .abort, ∅), world)

/-- A directory with one file that has one import. -/
def askedImport : Session Unit where
  files := .directory [("p", .directory [("a.go",
    .file 0o644 (.text "package main\nimport \"github.com/a/b\"\n"))])]
  world := ()


set_option maxRecDepth 10000 in
/-- A missing directory is one failure, and the run goes on to the package, whose pass is aborted. -/
theorem abort_behind_failure :
    (run abortive { interactive := true } ["q", "p", "r"] askedImport).1.failed.map (·.dir) =
        ["q"] ∧
      ∃ visits last, Visits abortive { interactive := true } askedImport visits last.after ∧
        visits.getLast? = some last ∧ last.result = .ok .aborted ∧
        last.after.files = last.before.files ∧
        (run abortive { interactive := true } ["q", "p", "r"] askedImport).2 = last.after := by
  have hcheck : (fun summary : RunSummary =>
      summary.aborted && summary.failed.map (·.dir) == ["q"])
        (run abortive { interactive := true } ["q", "p", "r"] askedImport).1 = true := by
    decide +kernel
  simp only [Bool.and_eq_true, beq_iff_eq] at hcheck
  obtain ⟨haborted, hfailed⟩ := hcheck
  obtain ⟨-, -, hrun⟩ := run_atomic abortive { interactive := true }
  obtain ⟨visits, hvisits, -, hend⟩ := hrun ["q", "p", "r"] askedImport
  rcases hend with ⟨hnot, -⟩ | ⟨-, earlier, last, rest, rfl, hresult, -, -, hafter, hfiles, -⟩
  · rw [haborted] at hnot
    simp at hnot
  · rw [hafter] at hvisits
    exact ⟨hfailed, _, last, hvisits, List.getLast?_concat, hresult, hfiles, hafter⟩

end PinnedImports.Pass
