import PinnedImports.Command.Arguments
import PinnedImports.Confirm.Asking
import PinnedImports.GoCommand
import PinnedImports.Pass.Report
import PinnedImports.Patterns
import PinnedImports.Registry.Client

/-!
# Running a command

A command runs in an environment and on a machine that offers the registry, the go command and a
terminal. `Command.execute` gives the exit code of a command line: 0 if everything went well, 1 if
something failed and 2 if the command line is not well formed.
-/

set_option autoImplicit false

namespace PinnedImports.Command

open Registry Pass Pass.Session

/-- The variables of the environment that matter. -/
structure Environment where
  apiHost : Option String := none
  gopath : Option String := none
  home : Option String := none
  forcedColour : Option String := none

namespace Environment

/-- The workspace of the environment. -/
def workspace (e : Environment) : Workspace := .ofEnvironment e.gopath e.home

/-- Colours are used only where they are forced. -/
def palette (e : Environment) : Text.Palette := ⟨e.forcedColour.any (· != "0")⟩

end Environment

/-- The machine that a command runs on; `σ` is its state. -/
structure Machine (σ : Type) where
  /-- The reply of a host to a batch of requests. -/
  post : String → List Request → σ → Reply × σ
  /-- A run of the go command with some arguments. -/
  go : List String → σ → GoCommand.Exit × σ
  /-- The bytes typed at the terminal, if there is one. -/
  terminal : σ → Option (List UInt8)
  /-- The state with other bytes typed at the terminal. -/
  withTerminal : Option (List UInt8) → σ → σ
  /-- What the operating system refuses when the file at a path is replaced. -/
  disk : String → σ → Storage.Refusals × σ := fun _ world => (.none, world)
  /-- Whether the path that is shown as a text is that text on the disk, in UTF-8. -/
  isUtf8 : String → Bool := fun _ => true

/-- A command on its machine, with what it needs to know of its surroundings. -/
structure Setup (σ : Type) where
  machine : Machine σ
  host : String
  workspace : Workspace
  palette : Text.Palette

namespace Setup

variable {σ : Type}

/-- The records of a batch of requests. -/
def resolve (setup : Setup σ) (requests : List Request) (world : σ) :
    Except Failure (List Record) × σ :=
  let (reply, world) := setup.machine.post setup.host requests world
  (reply.records setup.host requests.length, world)

/-- The collaborators of a pass. -/
def collaborators (setup : Setup σ) (verbose : Bool) : Collaborators σ where
  palette := setup.palette
  registry := setup.resolve
  names root path world :=
    let (answer, notices) := setup.workspace.packageName root path
    ((answer.mapError Workspace.NameError.message, notices), world)
  downloader := GoCommand.provide setup.workspace setup.machine.go verbose
  gate prompt world :=
    let (answer, rest) := Confirm.askTerminal setup.palette prompt (setup.machine.terminal world)
    (answer, setup.machine.withTerminal rest world)
  disk := setup.machine.disk

/-- Writes to standard output. -/
def print (text : String) : StateM (Session σ) Unit := tell (.ofOut text)

/-- Tells one notice. -/
def note (setup : Setup σ) (severity : Severity) (text : String) : StateM (Session σ) Unit :=
  tell (.ofNotices setup.palette [⟨severity, text⟩])

/-- Tells of a failure that ends the command. -/
def failed (setup : Setup σ) (message : String) : StateM (Session σ) Bool := do
  setup.note .error message
  return false

/-! ## Pinning -/

/-- Tells what a run did. -/
def printSummary (setup : Setup σ) (options : Options) (summary : RunSummary) :
    StateM (Session σ) Unit := do
  if summary.aborted then setup.note .error "aborted, later packages were not rewritten"
  if summary.importsChanged = 0 then
    if summary.isSuccess then
      print (setup.palette.bold .green "ok:" ++ " No imports to rewrite\n")
  else
    let verb := if options.dryRun then "Would rewrite" else "Rewrote"
    let packages := summary.packages.countP fun package => 0 < package.filesChanged
    print ("\n" ++ setup.palette.bold .yellow verb ++ " " ++ toString summary.importsChanged ++
      " imports in " ++ toString summary.filesChanged ++ " files across " ++
      toString packages ++ " packages\n")
    if options.dryRun then setup.note .hint "Run without -n to apply changes"

/-- The line that holds a summary as JSON. There is none if a path in the summary is not UTF-8, since
a JSON text cannot hold it. -/
def document? (setup : Setup σ) (summary : RunSummary) : Option String :=
  if summary.paths.all setup.machine.isUtf8 then some (summary.toJson.text ++ "\n") else none

/-- Prints the line that holds a summary as JSON. -/
def printDocument (setup : Setup σ) (summary : RunSummary) : StateM (Session σ) Bool := do
  match setup.document? summary with
  | some line =>
    print line
    return summary.isSuccess
  | none => setup.failed "path contains invalid UTF-8 characters"

/-- Pins the imports of the packages in some directories and tells of it. -/
def pinIn (setup : Setup σ) (options : Options) (json : Bool) (dirs : List String) :
    StateM (Session σ) Bool := do
  if options.verbose then
    setup.note .info ("Found " ++ toString dirs.length ++
      " package directories, resolving repositories against " ++ setup.host)
  let summary ← Pass.run (setup.collaborators options.verbose) options dirs
  if json then setup.printDocument summary
  else
    setup.printSummary options summary
    return summary.isSuccess

/-- Pins the imports of the packages that some patterns name. -/
def pin (setup : Setup σ) (patterns : List String) (options : Options) (json : Bool)
    (excludes : List String) (defaultExcludes : Bool) : StateM (Session σ) Bool := do
  match Filter.ofPatterns excludes defaultExcludes with
  | .error e => setup.failed e.message
  | .ok filter =>
    let (dirs, notices) :=
      Patterns.packageDirs (← get).files filter setup.workspace patterns
    tell (.ofNotices setup.palette notices)
    match dirs with
    | .error e => setup.failed e.fullMessage
    | .ok dirs => setup.pinIn options json dirs

/-! ## Downloading -/

/-- The path to download for a requested one, and what is told of it. -/
def choosePath (setup : Setup σ) (preferRevisions : Bool) (requested : String)
    (record : Record) : StateM (Session σ) String := do
  match fetchPath requested record preferRevisions with
  | .use path =>
    print ("using " ++ setup.palette.paint .green path ++ " for package " ++ requested ++ "\n")
    return path
  | .skip (.refused message) =>
    setup.note .warn ("gopkgs can't find package " ++ requested ++ ": " ++ message ++
      ", using original")
    return requested
  | .skip _ => return requested

/-- Downloads the requested paths one after another; whether all went well. -/
def fetchAll (setup : Setup σ) (update preferRevisions verbose : Bool) :
    List (String × Record) → StateM (Session σ) Bool
  | [] => pure true
  | (requested, record) :: rest => do
    let path ← setup.choosePath preferRevisions requested record
    let s ← get
    let (outcome, world) := GoCommand.fetch setup.machine.go verbose update path s.world
    set { s with world := world }
    match outcome with
    | .fetched => setup.fetchAll update preferRevisions verbose rest
    | .failed message =>
      setup.note .error message
      let _ ← setup.fetchAll update preferRevisions verbose rest
      return false

/-- The records of some requests, straight from the registry. -/
def ask (setup : Setup σ) (paths : List String) :
    StateM (Session σ) (Except Failure (List Record)) := do
  let s ← get
  let (answer, world) := setup.resolve (paths.map Request.latest) s.world
  set { s with world := world }
  return answer

/-- Downloads packages through the registry; without paths, an update is one of all checkouts. -/
def download (setup : Setup σ) (paths : List String) (update preferRevisions verbose : Bool) :
    StateM (Session σ) Bool := do
  let root := (← get).files
  let paths := if paths.isEmpty && update then setup.workspace.checkouts root else paths
  if paths.isEmpty then setup.failed "no packages specified"
  else
    match ← setup.ask paths with
    | .error failure => setup.failed failure.message
    | .ok records => setup.fetchAll update preferRevisions verbose (paths.zip records)

/-! ## Pages of a package -/

/-- Prints a page of a package's record. -/
def printPage (setup : Setup σ) (path : String) (page : Record → String) :
    StateM (Session σ) Bool := do
  match (← setup.ask [path]).bind (single path) with
  | .error failure => setup.failed failure.message
  | .ok record =>
    if record.registryPath.isEmpty then
      setup.failed (path ++ " is not mirrored at gopkgs.com")
    else
      print (page record ++ "\n")
      return true

/-- Carries out an action; whether all went well. -/
def perform (setup : Setup σ) : Action → StateM (Session σ) Bool
  | .pin patterns options json excludes defaultExcludes =>
    setup.pin patterns options json excludes defaultExcludes
  | .get paths update preferRevisions verbose =>
    setup.download paths update preferRevisions verbose
  | .doc path preferRevisions =>
    setup.printPage path
      (if preferRevisions then Record.revisionDocumentation else Record.versionDocumentation)
  | .view path => setup.printPage path fun record => "http://" ++ record.registryPath

end Setup

/-- The host that an invocation asks: the one it names, that of the environment, or the default. -/
def Invocation.hostIn (invocation : Invocation) (environment : Environment) : String :=
  ((invocation.host <|> environment.apiHost).getD defaultHost)

/-- Runs a command line; the result is its exit code. -/
def execute {σ : Type} (machine : Machine σ) (environment : Environment)
    (arguments : List String) : StateM (Session σ) Nat :=
  match Invocation.parse? arguments with
  | none => pure 2
  | some invocation => do
    let setup : Setup σ :=
      ⟨machine, invocation.hostIn environment, environment.workspace, environment.palette⟩
    return if ← setup.perform invocation.action then 0 else 1

/-- A command line that is well formed is carried out. -/
theorem execute_eq_perform {σ : Type} (machine : Machine σ) (environment : Environment)
    {arguments : List String} {invocation : Invocation}
    (hparse : Invocation.parse? arguments = some invocation) (s : Session σ) :
    let setup : Setup σ :=
      ⟨machine, invocation.hostIn environment, environment.workspace, environment.palette⟩
    let ended := setup.perform invocation.action s
    execute machine environment arguments s = ((if ended.1 then 0 else 1), ended.2) := by
  rw [execute, hparse]
  rfl

end PinnedImports.Command
