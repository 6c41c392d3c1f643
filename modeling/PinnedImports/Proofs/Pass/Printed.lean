import PinnedImports.Proofs.Pass.Atomicity

/-!
# What a run prints

A run tells most things on standard error. What it prints on standard output can be read off its
summary: a table for each report with substitutions, in the order of the reports, in a dry run and in
a verbose one, and nothing in any other (`run_prints`).
-/

set_option autoImplicit false

namespace PinnedImports.Pass

open Session

variable {σ : Type} {tools : Collaborators σ} {options : Options}

/-! ## Tables -/

/-- The table that is printed for a report. -/
def FileReport.table (palette : Text.Palette) (dryRun verbose : Bool) (report : FileReport) :
    String :=
  if report.substitutions.isEmpty then ""
  else if dryRun then
    substitutionTable palette "would rewrite" report.file report.substitutions
  else if verbose then substitutionTable palette "rewrite" report.file report.substitutions
  else ""

/-- The tables of some reports. -/
def tables (palette : Text.Palette) (options : Options) (reports : List FileReport) : String :=
  String.join (reports.map (FileReport.table palette options.dryRun options.verbose))

/-- All reports of a run, package by package. -/
def RunSummary.reports (summary : RunSummary) : List FileReport :=
  summary.packages.flatMap PackageSummary.files

/-- The tables that are printed for a run. -/
def RunSummary.tables (palette : Text.Palette) (options : Options) (summary : RunSummary) : String :=
  Pass.tables palette options summary.reports

@[simp] theorem tables_nil (palette : Text.Palette) : tables palette options [] = "" := rfl

theorem tables_append (palette : Text.Palette) (first rest : List FileReport) :
    tables palette options (first ++ rest) =
      tables palette options first ++ tables palette options rest := by
  rw [tables, List.map_append, String.join_append]
  rfl

theorem tables_cons (palette : Text.Palette) (report : FileReport) (rest : List FileReport) :
    tables palette options (report :: rest) =
      report.table palette options.dryRun options.verbose ++ tables palette options rest := by
  rw [tables, List.map_cons, String.join_cons]
  rfl

theorem substitutionTable_ne (palette : Text.Palette) (verb file : String)
    (subs : Dictionary String) : substitutionTable palette verb file subs ≠ "" := by
  intro h
  have hchars := congrArg String.toList h
  simp [substitutionTable, String.toList_append] at hchars

theorem table_eq_empty_iff (palette : Text.Palette) (dryRun verbose : Bool) (report : FileReport) :
    report.table palette dryRun verbose = "" ↔
      report.substitutions.isEmpty = true ∨ (dryRun = false ∧ verbose = false) := by
  unfold FileReport.table
  cases report.substitutions.isEmpty <;> cases dryRun <;> cases verbose <;>
    simp [substitutionTable_ne]

/-- No table is printed where there are no substitutions, and by a run that is neither dry nor
verbose. -/
theorem tables_eq_empty_iff (palette : Text.Palette) (reports : List FileReport) :
    tables palette options reports = "" ↔
      (∀ report ∈ reports, report.substitutions.isEmpty = true) ∨
        (options.dryRun = false ∧ options.verbose = false) := by
  induction reports with
  | nil => simp
  | cons report rest ih =>
    rw [tables_cons, String.append_eq_empty_iff, ih, table_eq_empty_iff, List.forall_mem_cons,
      ← and_or_right]

/-! ## Printing -/

/-- What stands on standard output. -/
def out (s : Session σ) : String := s.transcript.out

/-- A computation prints a text that can be read off its result, and nothing else. -/
def Prints {α : Type} (m : StateM (Session σ) α) (text : α → String) : Prop :=
  ∀ s, out (m s).2 = out s ++ text (m s).1

section Printing

variable {α β : Type} {m : StateM (Session σ) α} {text : α → String}

theorem prints_pure {a : α} (h : text a = "") :
    Prints (pure a : StateM (Session σ) α) text := by
  intro s
  rw [run_pure, h, String.append_empty]

/-- What prints nothing does not matter for what is printed behind it. -/
theorem Prints.after {first : StateM (Session σ) β} {f : β → StateM (Session σ) α}
    (hfirst : Keeps out first) (h : ∀ b, Prints (f b) text) : Prints (first >>= f) text := by
  intro s
  rw [run_bind, h (first s).1 (first s).2, hfirst s]

/-- What is printed of two results, one behind the other, is printed of both together. -/
theorem Prints.combine {n : StateM (Session σ) β} {more : β → String} {γ : Type} {f : α → β → γ}
    {both : γ → String} (hm : Prints m text) (hn : Prints n more)
    (h : ∀ a b, both (f a b) = text a ++ more b) :
    Prints (do let a ← m; return f a (← n)) both := by
  intro s
  rw [run_bind, run_bind, run_pure, h, ← String.append_assoc, ← hm s, ← hn (m s).2]

end Printing

/-- Asking prints nothing on standard output. -/
def QuietGate (tools : Collaborators σ) : Prop :=
  ∀ prompt world, (tools.gate prompt world).1.2.out = ""

theorem keeps_out_notify (tools : Collaborators σ) (notices : List Notice) :
    Keeps out (notify tools notices) := by
  intro s
  change s.transcript.out ++ "" = s.transcript.out
  exact String.append_empty

theorem keeps_out_lookup (path : String) : Keeps out (lookup tools path) :=
  fun s => keeps_out_notify tools (tools.names s.files path s.world).1.2
    { s with world := (tools.names s.files path s.world).2 }

theorem keeps_out_ask (hgate : QuietGate tools) (prompt : Confirm.Prompt) :
    Keeps out (ask tools prompt) := by
  intro s
  change s.transcript.out ++ (tools.gate prompt s.world).1.2.out = s.transcript.out
  rw [hgate, String.append_empty]

theorem keeps_out_write (file : SourceFile) (subs : Dictionary String) :
    Keeps out (write tools file subs) := by
  intro s
  rw [write_eq]
  split
  · rfl
  · exact keeps_out_notify tools _ s

/-! ## A pass and a run -/

theorem reportOf_table (palette : Text.Palette) (dryRun verbose : Bool) (file : SourceFile)
    (live : Dictionary String) (dropped : List String) (outcome : Except String Unit) :
    (reportOf file live dropped outcome).table palette dryRun verbose =
      FileReport.table palette dryRun verbose { file := file.path, substitutions := live } := by
  cases outcome <;> rfl

theorem commit_prints (dryRun verbose : Bool) (file : SourceFile) (subs : Dictionary String) :
    Prints (commit tools dryRun verbose file subs)
      (FileReport.table tools.palette dryRun verbose) := by
  cases hsubs : subs.isEmpty with
  | true =>
    rw [commit, if_pos hsubs]
    exact prints_pure rfl
  | false =>
    intro s
    -- A dry run prints the table of all substitutions, any other that of the ones that are left.
    cases dryRun with
    | true =>
      rw [commit_dryRun tools verbose file hsubs]
      simp only [FileReport.table, hsubs, Bool.false_eq_true, if_false, if_true]
      rfl
    | false =>
      have hdropped : Keeps out (undownloadable tools subs.entries) :=
        keeps_undownloadable (keeps_out_notify tools) (fun _ _ => rfl) subs.entries
      have hfound := hdropped s
      rw [commit_eq tools verbose file hsubs]
      simp only
      generalize undownloadable tools subs.entries s = found at hfound ⊢
      generalize (subs.filter fun path _ => !found.1.contains path) = live
      cases hlive : live.isEmpty with
      | true =>
        rw [if_pos rfl, hfound]
        exact String.append_empty.symm
      | false =>
        rw [if_neg Bool.false_ne_true, reportOf_table, keeps_out_write]
        simp only [FileReport.table, hlive, Bool.false_eq_true, if_false]
        split
        · change found.2.transcript.out ++ _ = _
          rw [← hfound]
          rfl
        · rw [hfound, String.append_empty]

theorem commitAll_prints (pins : Dictionary String) (disabled : StringSet)
    (files : List SourceFile) :
    Prints (commitAll tools options pins disabled files) (tables tools.palette options) := by
  induction files with
  | nil => exact prints_pure rfl
  | cons file rest ih =>
    rw [commitAll]
    split
    · exact ih
    · exact (commit_prints _ _ file _).combine ih fun report more => tables_cons _ report more

/-- What is printed of the end of a pass. -/
def Outcome.tables (palette : Text.Palette) (options : Options) :
    Except PassError Outcome → String
  | .ok (.committed summary) => Pass.tables palette options summary.files
  | _ => ""

theorem pinEligible_prints (hgate : QuietGate tools) (package : Package) (analysis : Analysis) :
    Prints (pinEligible tools options package analysis) (Outcome.tables tools.palette options) := by
  unfold pinEligible
  have hresolve : ∀ requests, Keeps out (resolve tools requests) := fun _ _ => rfl
  apply Prints.after (hresolve _)
  intro reply
  cases reply with
  | error failure => exact prints_pure rfl
  | ok records =>
    -- Choosing tells only notices and asks questions, and both go to standard error.
    have hchoose := keeps_choose (keeps_out_notify tools) (keeps_out_ask hgate) options package.name
      (analysis.keys.zip records) { }
    apply Prints.after hchoose
    intro chosen
    rcases chosen with e | _ | choices
    · exact prints_pure rfl
    · exact prints_pure rfl
    · simp only
      split
      · exact prints_pure rfl
      · exact fun s => commitAll_prints choices.pins analysis.disabled package.files s

theorem onPackage_prints (hgate : QuietGate tools) (package : Package) :
    Prints (onPackage tools options package) (Outcome.tables tools.palette options) := by
  unfold onPackage
  apply Prints.after (keeps_analyze keeps_out_lookup package.files)
  intro analysis
  apply Prints.after (keeps_out_notify tools _)
  intro _
  split
  · exact prints_pure rfl
  split
  · apply Prints.after (keeps_out_notify tools _)
    intro _
    exact pinEligible_prints hgate package analysis
  · exact pinEligible_prints hgate package analysis

theorem onDirectory_prints (hgate : QuietGate tools) (options : Options) (dir : String) :
    Prints (onDirectory tools options dir) (Outcome.tables tools.palette options) := by
  intro s
  rw [onDirectory_eq]
  rcases Package.load s.files dir with cause | ⟨_ | package, notices⟩
  · exact String.append_empty.symm
  · exact (keeps_out_notify tools notices s).trans String.append_empty.symm
  · have hnotices := keeps_out_notify tools notices s
    simp only
    rw [onPackage_prints hgate package, hnotices]

/-- **What a run prints can be read off its summary**: the tables of its reports, in order. -/
theorem run_prints (hgate : QuietGate tools) (options : Options) (dirs : List String) :
    Prints (run tools options dirs) (RunSummary.tables tools.palette options) := by
  induction dirs with
  | nil => exact prints_pure rfl
  | cons dir rest ih =>
    intro s
    rw [run, run_bind]
    -- What the first pass prints comes first, and its end says whether there is more.
    have hpass := onDirectory_prints hgate options dir s
    generalize onDirectory tools options dir s = pass at hpass ⊢
    obtain ⟨e | _ | summary | _, t⟩ := pass
    · -- A failure is told of on standard error.
      simp only [Outcome.tables, String.append_empty] at hpass
      simp only [run_bind]
      have htold := keeps_out_notify tools
        [⟨.error, "error rewriting package " ++ dir ++ ": " ++ e.message⟩] t
      change out (run tools options rest _).2 = _
      rw [ih, htold, hpass]
      rfl
    · simp only [Outcome.tables, String.append_empty] at hpass
      simp only
      rw [ih, hpass]
    · simp only [Outcome.tables] at hpass
      simp only [run_bind]
      change out (run tools options rest t).2 = _
      rw [ih, hpass, String.append_assoc, RunSummary.tables, ← tables_append]
      rfl
    · simp only [Outcome.tables, String.append_empty] at hpass
      simp only
      rw [run_pure, hpass]
      exact String.append_empty.symm

end PinnedImports.Pass
