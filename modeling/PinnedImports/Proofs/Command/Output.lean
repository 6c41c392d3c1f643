import PinnedImports.Command.Execution
import PinnedImports.Proofs.Json.Printing
import PinnedImports.Proofs.Pass.Printed

/-!
# The output of a command with a JSON summary

Where a command is asked for its summary as JSON, nothing but tables of substitutions stands in front
of it, and those only in a dry run or a verbose one (`execute_json`). The summary itself is missing if
one of its paths is not UTF-8. Notices, questions and failures are told of on standard error.
-/

set_option autoImplicit false

namespace PinnedImports.Pass

open Session

variable {σ : Type}

/-! ## What has been told before -/

/-- Sessions that differ at most in what has been told. -/
structure AlikeButTold (s t : Session σ) : Prop where
  files : s.files = t.files
  cache : s.cache = t.cache
  world : s.world = t.world

theorem AlikeButTold.exists_told {s t : Session σ} (h : AlikeButTold s t) :
    ∃ told, t = { s with transcript := told } := by
  obtain ⟨files, told, cache, world⟩ := s
  obtain ⟨files', told', cache', world'⟩ := t
  obtain ⟨hfiles, hcache, hworld⟩ := h
  simp only at hfiles hcache hworld
  rw [hfiles, hcache, hworld]
  exact ⟨told', rfl⟩

/-- What has been told before does not matter to a run. -/
theorem related_alikeButTold (tools : Collaborators σ) : Related AlikeButTold tools tools where
  palette := rfl
  files _ _ h := h.files
  told _ _ _ h := ⟨rfl, h.files, h.cache, h.world⟩
  lookup _ s _ h := by
    obtain ⟨told, rfl⟩ := h.exists_told
    exact ⟨rfl, rfl, rfl, rfl⟩
  resolve _ s _ h := by
    obtain ⟨told, rfl⟩ := h.exists_told
    exact ⟨rfl, rfl, rfl, rfl⟩
  download _ s _ h := by
    obtain ⟨told, rfl⟩ := h.exists_told
    exact ⟨rfl, rfl, rfl, rfl⟩
  ask _ s _ h := by
    obtain ⟨told, rfl⟩ := h.exists_told
    exact ⟨rfl, rfl, rfl, rfl⟩
  refusals _ s _ h := by
    obtain ⟨told, rfl⟩ := h.exists_told
    exact ⟨rfl, rfl, rfl, rfl⟩
  exchange _ _ _ h := ⟨rfl, h.cache, h.world⟩

/-! ## Tables are no documents -/

/-- What a table can begin with: its heading or a colour. -/
def BeginsTable (text : String) : Prop :=
  ∃ c cs, text.toList = c :: cs ∧ (c = 'w' ∨ c = 'r' ∨ c = '\x1b')

theorem BeginsTable.append {text : String} (h : BeginsTable text) (more : String) :
    BeginsTable (text ++ more) := by
  obtain ⟨c, cs, htext, hc⟩ := h
  exact ⟨c, cs ++ more.toList, by rw [String.toList_append, htext, List.cons_append], hc⟩

theorem BeginsTable.not_isDocument {text : String} (h : BeginsTable text) :
    ¬ Json.IsDocument text := by
  -- No value begins with one of these characters.
  obtain ⟨c, cs, htext, rfl | rfl | rfl⟩ := h
  · exact Json.not_isDocument htext rfl (by decide) (by decide) rfl
  · exact Json.not_isDocument htext rfl (by decide) (by decide) rfl
  · exact Json.not_isDocument htext rfl (by decide) (by decide) rfl

theorem beginsTable_bold (palette : Text.Palette) (colour : Text.Colour) {text : String}
    (h : BeginsTable text) : BeginsTable (palette.bold colour text) := by
  rw [Text.Palette.bold, Text.Palette.paintWith]
  split
  · exact ⟨'\x1b', _, String.toList_ofList, .inr (.inr rfl)⟩
  · exact h

theorem beginsTable_table {palette : Text.Palette} {dryRun verbose : Bool} {report : FileReport}
    (h : report.table palette dryRun verbose ≠ "") :
    BeginsTable (report.table palette dryRun verbose) := by
  unfold FileReport.table substitutionTable at h ⊢
  simp only [String.append_assoc] at h ⊢
  split_ifs at h ⊢
  · exact absurd rfl h
  · exact (beginsTable_bold palette .yellow ⟨'w', _, rfl, .inl rfl⟩).append _
  · exact (beginsTable_bold palette .yellow ⟨'r', _, rfl, .inr (.inl rfl)⟩).append _
  · exact absurd rfl h

theorem beginsTable_tables {palette : Text.Palette} {options : Options} {reports : List FileReport}
    (h : tables palette options reports ≠ "") : BeginsTable (tables palette options reports) := by
  induction reports with
  | nil => exact absurd rfl h
  | cons report rest ih =>
    rw [tables_cons] at h ⊢
    -- Reports without a table leave nothing, so the text begins with the first table there is.
    by_cases hfirst : report.table palette options.dryRun options.verbose = ""
    · rw [hfirst, String.empty_append] at h ⊢
      exact ih h
    · exact (beginsTable_table hfirst).append _

end PinnedImports.Pass

namespace PinnedImports.Command

open Pass Pass.Session

variable {σ : Type}

namespace Setup

/-! ## What is told beside the output -/

/-- A terminal is asked on standard error. -/
theorem quietGate_collaborators (setup : Setup σ) (verbose : Bool) :
    QuietGate (setup.collaborators verbose) := by
  intro prompt world
  change (Confirm.askTerminal setup.palette prompt (setup.machine.terminal world)).1.2.out = ""
  unfold Confirm.askTerminal
  split <;> rfl

theorem out_note (setup : Setup σ) (severity : Severity) (text : String) (s : Session σ) :
    out (setup.note severity text s).2 = out s := by
  change s.transcript.out ++ "" = s.transcript.out
  exact String.append_empty

/-! ## Pinning -/

/-- The summary of the passes in some directories. -/
def summary (setup : Setup σ) (options : Options) (dirs : List String) (s : Session σ) :
    RunSummary :=
  (Pass.run (setup.collaborators options.verbose) options dirs s).1

/-- A summary is printed, or the command fails for want of a text of it. -/
theorem printDocument_spec (setup : Setup σ) (summary : RunSummary) (s : Session σ) :
    (setup.printDocument summary s).1 = ((setup.document? summary).isSome && summary.isSuccess) ∧
      out (setup.printDocument summary s).2 = out s ++ (setup.document? summary).getD "" := by
  unfold printDocument
  cases setup.document? summary with
  | some line => exact ⟨rfl, rfl⟩
  | none => exact ⟨rfl, rfl⟩

/-- With a JSON summary, the tables and then the summary are printed. -/
theorem pinIn_json (setup : Setup σ) (options : Options) (dirs : List String) (s : Session σ) :
    let summary := setup.summary options dirs s
    (setup.pinIn options true dirs s).1 =
        ((setup.document? summary).isSome && summary.isSuccess) ∧
      out (setup.pinIn options true dirs s).2 =
        out s ++ summary.tables setup.palette options ++ (setup.document? summary).getD "" := by
  -- A verbose command tells first what it has found, and the run does not see that.
  obtain ⟨t, halike, hout, hrun⟩ : ∃ t, AlikeButTold s t ∧ out t = out s ∧
      setup.pinIn options true dirs s = (do
        let summary ← Pass.run (setup.collaborators options.verbose) options dirs
        setup.printDocument summary : StateM (Session σ) Bool) t := by
    unfold pinIn
    split
    · exact ⟨(setup.note .info _ s).2, ⟨rfl, rfl, rfl⟩, setup.out_note _ _ s, rfl⟩
    · exact ⟨s, ⟨rfl, rfl, rfl⟩, rfl, rfl⟩
  have hsummary := ((related_alikeButTold (setup.collaborators options.verbose)).run options dirs
    s t halike).1
  have hprints := run_prints (setup.quietGate_collaborators options.verbose) options dirs t
  obtain ⟨hcode, hdocument⟩ := setup.printDocument_spec
    (Pass.run (setup.collaborators options.verbose) options dirs t).1
    (Pass.run (setup.collaborators options.verbose) options dirs t).2
  rw [hrun, summary, hsummary]
  refine ⟨hcode, ?_⟩
  change out (setup.printDocument _ (Pass.run (setup.collaborators options.verbose) options dirs
    t).2).2 = _
  rw [hdocument, hprints, hout]
  rfl

/-- A command that finds the directories of its patterns goes on in them, behind its notices. -/
theorem pin_eq (setup : Setup σ) {patterns excludes dirs : List String} (options : Options)
    (json : Bool) {defaultExcludes : Bool} {filter : Filter} {s : Session σ}
    (hfilter : Filter.ofPatterns excludes defaultExcludes = .ok filter)
    (hdirs : (Patterns.packageDirs s.files filter setup.workspace patterns).1 = .ok dirs) :
    ∃ notices, setup.pin patterns options json excludes defaultExcludes s =
      setup.pinIn options json dirs (tell (.ofNotices setup.palette notices) s).2 := by
  let notices := (Patterns.packageDirs s.files filter setup.workspace patterns).2
  refine ⟨notices, ?_⟩
  have hget : (get : StateM (Session σ) (Session σ)) s = (s, s) := rfl
  unfold pin
  simp only [hfilter, run_bind, hget, hdirs]
  rfl

end Setup

/-- A command that finds the directories of its patterns ends as the passes in them do. -/
theorem execute_pin (machine : Machine σ) (environment : Environment) {arguments : List String}
    {invocation : Invocation} {patterns excludes dirs : List String} {options : Options}
    {json defaultExcludes : Bool} {filter : Filter} {s : Session σ}
    (hparse : Invocation.parse? arguments = some invocation)
    (haction : invocation.action = .pin patterns options json excludes defaultExcludes)
    (hfilter : Filter.ofPatterns excludes defaultExcludes = .ok filter)
    (hdirs : (Patterns.packageDirs s.files filter environment.workspace patterns).1 = .ok dirs) :
    let setup : Setup σ :=
      ⟨machine, invocation.hostIn environment, environment.workspace, environment.palette⟩
    ∃ t, AlikeButTold s t ∧ out t = out s ∧ execute machine environment arguments s =
      ((if (setup.pinIn options json dirs t).1 then 0 else 1),
        (setup.pinIn options json dirs t).2) := by
  intro setup
  have hperform := execute_eq_perform machine environment hparse s
  rw [haction] at hperform
  have hperform : execute machine environment arguments s =
      ((if (setup.pin patterns options json excludes defaultExcludes s).1 then 0 else 1),
        (setup.pin patterns options json excludes defaultExcludes s).2) := hperform
  obtain ⟨notices, hpin⟩ := setup.pin_eq options json hfilter hdirs
  -- Notices are told on standard error, so the output is what it was.
  refine ⟨(tell (.ofNotices setup.palette notices) s).2, ⟨rfl, rfl, rfl⟩, String.append_empty, ?_⟩
  rw [hperform, hpin]

section Json

variable {arguments patterns excludes dirs : List String} {invocation : Invocation}
  {options : Options} {defaultExcludes : Bool} {filter : Filter}

theorem execute_json_eq (machine : Machine σ) (environment : Environment) (s : Session σ)
    (hparse : Invocation.parse? arguments = some invocation)
    (haction : invocation.action = .pin patterns options true excludes defaultExcludes)
    (hfilter : Filter.ofPatterns excludes defaultExcludes = .ok filter)
    (hdirs : (Patterns.packageDirs s.files filter environment.workspace patterns).1 = .ok dirs) :
    let setup : Setup σ :=
      ⟨machine, invocation.hostIn environment, environment.workspace, environment.palette⟩
    let summary := setup.summary options dirs s
    let encodable := summary.paths.all machine.isUtf8
    (execute machine environment arguments s).1 =
        (if encodable && summary.isSuccess then 0 else 1) ∧
      out (execute machine environment arguments s).2 =
        out s ++ summary.tables environment.palette options ++
          (if encodable then summary.toJson.text ++ "\n" else "") := by
  intro setup summary encodable
  obtain ⟨t, halike, htold, hexecute⟩ := execute_pin machine environment hparse haction hfilter hdirs
  have hsummary : setup.summary options dirs t = summary :=
    ((related_alikeButTold (setup.collaborators options.verbose)).run options dirs
      _ _ halike).1.symm
  obtain ⟨hsuccess, hout⟩ := setup.pinIn_json options dirs t
  have hdocument : setup.document? summary =
      if encodable then some (summary.toJson.text ++ "\n") else none := rfl
  rw [hsummary, hdocument] at hsuccess hout
  rw [htold] at hout
  rw [hexecute]
  refine ⟨?_, hout.trans ?_⟩
  · simp only
    rw [hsuccess]
    cases encodable <;> rfl
  · cases encodable <;> rfl

end Json

/-- A registry with one repository, and a go command that downloads everything. -/
def oneMirror : Machine Unit where
  post _ _ world := (.response 200
    "[\x7b\"path\":\"github.com/a/b\",\"gopkgs_path\":\"gopkgs.com/b\",\"revision\":\"1\"\x7d]", world)
  go _ world := (.status 0, world)
  terminal _ := none
  withTerminal _ world := world

/-- A directory with one file, which imports this repository. -/
def oneImport : Session Unit where
  files := .directory
    [("a.go", .file 0o644 (.text "package main\n\nimport b \"github.com/a/b\"\n"))]
  world := ()

/-- A directory whose path is not UTF-8 leaves no summary. -/
example :
    let ended := execute { oneMirror with isUtf8 := fun _ => false } { } ["rewrite", "--json"] oneImport
    ended.1 = 1 ∧ ended.2.transcript.out = "" := by
  decide +kernel

end PinnedImports.Command
