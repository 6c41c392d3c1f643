import PinnedImports.Json.Value
import PinnedImports.Pass.Run

/-!
# Summaries as JSON

The members of every object come in a fixed order, and dictionaries by increasing key.
-/

set_option autoImplicit false

namespace PinnedImports

open Json

/-- The members that tell a reason. -/
def KeepReason.members : KeepReason → List (String × Value)
  | canonical => [("reason", .string "canonical")]
  | unknownName message => [("reason", .string "unknown_name"), ("message", .string message)]
  | unattributed name => [("reason", .string "unanalyzable"), ("name", .string name)]
  | comparison (.assertion line) =>
    [("reason", .string "type_assertion"), ("line", .number line)]
  | comparison (.switchCase line) => [("reason", .string "type_switch"), ("line", .number line)]

/-- A kept import as JSON. -/
def KeptImport.toJson (kept : KeptImport) : Value :=
  .object ([("path", .string kept.path), ("file", .string kept.file)] ++ kept.reason.members)

/-- A dictionary of texts as JSON. -/
def Dictionary.toJson (d : Dictionary String) : Value :=
  .object (d.entries.map fun (key, text) => (key, .string text))

namespace Pass

/-- A file report as JSON; the error is left out when there is none. -/
def FileReport.toJson (report : FileReport) : Value :=
  .object ([("file", .string report.file),
    ("substitutions", report.substitutions.toJson),
    ("dropped", .list (report.dropped.map .string)),
    ("written", .bool report.written)] ++
    report.error.toList.map fun message => ("error", .string message))

/-- A skipped repository as JSON. -/
def SkippedRepository.toJson (skipped : SkippedRepository) : Value :=
  .object [("repository", .string skipped.key), ("reason", .string skipped.reason)]

/-- The summary of a pass as JSON. -/
def PackageSummary.toJson (s : PackageSummary) : Value :=
  .object [("package", .string s.package),
    ("dir", .string s.dir),
    ("library", .bool s.library),
    ("dry_run", .bool s.dryRun),
    ("rewrites", s.pins.toJson),
    ("kept", .list (s.kept.map KeptImport.toJson)),
    ("skipped", .list (s.skipped.map SkippedRepository.toJson)),
    ("files_rewritten", .number s.filesChanged),
    ("imports_rewritten", .number s.importsChanged),
    ("files", .list (s.files.map FileReport.toJson))]

/-- The paths in the summary of a pass: that of its directory, and those of files. -/
def PackageSummary.paths (s : PackageSummary) : List String :=
  s.dir :: s.kept.map (·.file) ++ s.files.map (·.file)

/-- The paths in the summary of a run. -/
def RunSummary.paths (s : RunSummary) : List String :=
  s.packages.flatMap PackageSummary.paths ++ s.failed.map (·.dir)

/-- A failed package as JSON. -/
def FailedPackage.toJson (failed : FailedPackage) : Value :=
  .object [("dir", .string failed.dir), ("error", .string failed.error)]

/-- The summary of a run as JSON. -/
def RunSummary.toJson (s : RunSummary) : Value :=
  .object [("packages", .list (s.packages.map PackageSummary.toJson)),
    ("failed", .list (s.failed.map FailedPackage.toJson)),
    ("aborted", .bool s.aborted)]

end Pass

end PinnedImports
