import PinnedImports.Pass.Commit
import PinnedImports.Registry.Selection

/-!
# Passes over packages

A pass pins the imports of one package: it reads the package, judges its imports, asks the
registry for the repositories that may change, chooses a path for each, asks the operator where that
is wanted, and commits file by file. Nothing is written before all choices are made. A run makes one
pass after another in the same session; a pass that fails is told of and the run goes on, and a pass
that the operator aborts ends it.
-/

set_option autoImplicit false

namespace PinnedImports.Pass

open Storage Registry Session

/-- A repository whose imports keep their paths. -/
structure SkippedRepository where
  key : String
  reason : String
deriving DecidableEq

/-- What a pass that was not aborted did. -/
structure PackageSummary where
  package : String
  dir : String
  library : Bool
  dryRun : Bool
  /-- The path chosen for each repository. -/
  pins : Dictionary String
  kept : List KeptImport
  skipped : List SkippedRepository
  filesChanged : Nat
  importsChanged : Nat
  /-- The files with a substitution. -/
  files : List FileReport

/-- Why a pass failed. -/
inductive PassError where
  | directory (cause : Package.DirectoryError)
  | registry (cause : Failure)
  | prompt (message : String)

/-- The reason as it is told, with its causes behind it. -/
def PassError.message : PassError → String
  | directory cause => cause.message
  | registry cause => cause.message
  | prompt message => "interactive prompt failed: " ++ message

/-- How a pass ended. -/
inductive Outcome where
  /-- There is no package, or no import in it may change. -/
  | nothing
  | committed (summary : PackageSummary)
  /-- The operator aborted before anything was written. -/
  | aborted

/-! ## Notices -/

/-- The notices about the judgement of a package's imports. -/
def analysisNotices (verbose : Bool) (analysis : Analysis) : List Notice :=
  analysis.unresolved.map (fun (path, message) =>
      ⟨.warn, message ++ ", keeping import " ++ path⟩) ++
    analysis.kept.filterMap fun kept =>
      match kept.reason with
      | .unknownName _ | .canonical => none
      | reason =>
        if verbose then
          some ⟨.info, "keeping import " ++ kept.path ++ " due to " ++ reason.message ++ " in " ++
            kept.file⟩
        else none

/-- The notice about the repositories of a package. -/
def keysNotice (package : String) (keys : List String) : Notice :=
  ⟨.info, "package " ++ package ++ " uses " ++ toString keys.length ++
    " 3rd party repositories: " ++ ", ".intercalate keys⟩

/-- The notices about a repository that is skipped. -/
def skipNotices (verbose : Bool) (key : String) : SkipReason → List Notice
  | .refused message =>
    [⟨.warn, "gopkgs can't find package " ++ key ++ ": " ++ message ++ ", keeping original"⟩]
  | reason =>
    if verbose then [⟨.info, "ignoring package " ++ key ++ ", " ++ reason.message⟩] else []

/-! ## One pass -/

/-- The choices that have been made. -/
structure Choices where
  pins : Dictionary String := ∅
  skipped : List SkippedRepository := []

namespace Choices

/-- The choices with one more path. -/
def take (c : Choices) (key path : String) : Choices :=
  { c with pins := c.pins.insert key path }

/-- The choices with one more skipped repository. -/
def skip (c : Choices) (key reason : String) : Choices :=
  { c with skipped := c.skipped ++ [⟨key, reason⟩] }

end Choices

variable {σ : Type}

/-- Chooses a path for each repository; none if the operator aborts. -/
def choose (tools : Collaborators σ) (options : Options) (package : String) :
    List (String × Record) → Choices → StateM (Session σ) (Except PassError (Option Choices))
  | [], choices => pure (.ok (some choices))
  | (key, record) :: rest, choices => do
    match select record (options.library.appliesTo package) options.preferRevisions with
    | .skip reason =>
      notify tools (skipNotices options.verbose key reason)
      choose tools options package rest (choices.skip key reason.message)
    | .use path =>
      if options.interactive then
        match ← ask tools ⟨key, path, package⟩ with
        | .error message => return .error (.prompt message)
        | .ok .abort => return .ok none
        | .ok .decline => choose tools options package rest (choices.skip key "declined")
        | .ok .accept => choose tools options package rest (choices.take key path)
      else choose tools options package rest (choices.take key path)

/-- Commits the files that have a substitution. -/
def commitAll (tools : Collaborators σ) (options : Options) (pins : Dictionary String)
    (disabled : StringSet) : List SourceFile → StateM (Session σ) (List FileReport)
  | [] => pure []
  | file :: rest => do
    let subs := Imports.substitutions pins disabled file.source.imports
    if subs.isEmpty then commitAll tools options pins disabled rest
    else
      let report ← commit tools options.dryRun options.verbose file subs
      return report :: (← commitAll tools options pins disabled rest)

/-- Whether a report counts as a changed file. -/
def FileReport.counts (dryRun : Bool) (report : FileReport) : Bool :=
  report.written || (dryRun && !report.substitutions.isEmpty)

/-- The summary of a pass. -/
def summarize (options : Options) (package : Package) (analysis : Analysis) (choices : Choices)
    (files : List FileReport) : PackageSummary :=
  let changed := files.filter (FileReport.counts options.dryRun)
  { package := package.name
    dir := package.dir
    library := options.library.appliesTo package.name
    dryRun := options.dryRun
    pins := choices.pins
    kept := analysis.kept
    skipped := choices.skipped
    filesChanged := changed.length
    importsChanged := changed.foldl (fun n report => n + report.substitutions.size) 0
    files := files }

/-- The part of a pass behind the judgement: the records of the eligible repositories, the choices and
the commits. -/
def pinEligible (tools : Collaborators σ) (options : Options) (package : Package)
    (analysis : Analysis) : StateM (Session σ) (Except PassError Outcome) := do
  let keys := analysis.keys
  match ← resolve tools (keys.map Request.latest) with
  | .error failure => return .error (.registry failure)
  | .ok records =>
    match ← choose tools options package.name (keys.zip records) { } with
    | .error e => return .error e
    | .ok none => return .ok .aborted
    | .ok (some choices) =>
      -- All questions have been answered when the first file is written.
      let files ←
        if choices.pins.isEmpty then pure []
        else commitAll tools options choices.pins analysis.disabled package.files
      return .ok (.committed (summarize options package analysis choices files))

/-- The pass over a package that has been read. -/
def onPackage (tools : Collaborators σ) (options : Options) (package : Package) :
    StateM (Session σ) (Except PassError Outcome) := do
  let analysis ← analyze tools package.files
  notify tools (analysisNotices options.verbose analysis)
  if analysis.keys.isEmpty then return .ok .nothing
  if options.verbose then notify tools [keysNotice package.name analysis.keys]
  pinEligible tools options package analysis

/-- The pass over the package in a directory. -/
def onDirectory (tools : Collaborators σ) (options : Options) (dir : String) :
    StateM (Session σ) (Except PassError Outcome) := do
  match Package.load (← get).files dir with
  | .error cause => return .error (.directory cause)
  | .ok (package?, notices) =>
    notify tools notices
    match package? with
    | none => return .ok .nothing
    | some package => onPackage tools options package

/-! ## Runs -/

/-- A package whose pass failed. -/
structure FailedPackage where
  dir : String
  error : String
deriving DecidableEq

/-- What a run did. -/
structure RunSummary where
  packages : List PackageSummary := []
  failed : List FailedPackage := []
  aborted : Bool := false

namespace RunSummary

/-- Whether no pass failed or was aborted. -/
def isSuccess (s : RunSummary) : Bool := s.failed.isEmpty && !s.aborted

/-- The number of changed files. -/
def filesChanged (s : RunSummary) : Nat :=
  s.packages.foldl (fun n package => n + package.filesChanged) 0

/-- The number of changed imports. -/
def importsChanged (s : RunSummary) : Nat :=
  s.packages.foldl (fun n package => n + package.importsChanged) 0

end RunSummary

/-- The passes over the packages in some directories, in order, up to one that is aborted. -/
def run (tools : Collaborators σ) (options : Options) :
    List String → StateM (Session σ) RunSummary
  | [] => pure { }
  | dir :: rest => do
    match ← onDirectory tools options dir with
    | .ok .nothing => run tools options rest
    | .ok (.committed summary) =>
      let later ← run tools options rest
      return { later with packages := summary :: later.packages }
    | .ok .aborted => return { aborted := true }
    | .error e =>
      notify tools [⟨.error, "error rewriting package " ++ dir ++ ": " ++ e.message⟩]
      let later ← run tools options rest
      return { later with failed := ⟨dir, e.message⟩ :: later.failed }

end PinnedImports.Pass
