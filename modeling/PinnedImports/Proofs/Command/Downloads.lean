import PinnedImports.Command.Execution
import PinnedImports.Proofs.Pass.Commit
import PinnedImports.Proofs.Registry.Decoding
import PinnedImports.Proofs.Repository

/-!
# The downloads of a command

A command that downloads packages asks the registry for all requested paths in one batch. If the batch
fails, the go command is not run. Otherwise there is a record for every path, and the go command is run
once for each of them, in their order, whatever came of the runs before (`execute_get`). What is told
of the runs is their log: a machine that writes one down (`Machine.logging`) does the same as without.
-/

set_option autoImplicit false

namespace PinnedImports

/-! ## The log of the go command -/

/-- A run of the go command: its arguments and how it ended. -/
structure GoCommand.Run where
  arguments : List String
  exit : GoCommand.Exit

/-- A download went well exactly if the command ended with status zero. -/
theorem GoCommand.outcome_eq_fetched_iff (path : String) {exit : Exit} :
    outcome path exit = .fetched ↔ exit = .status 0 := by
  rcases exit with code | ⟨number, dumped⟩ | -
  · cases code with
    | zero => simp [outcome]
    | succ code => simp [outcome]
  · simp [outcome]
  · simp [outcome]

variable {σ : Type}

/-- The session with a log of the go command behind the world's state. -/
def Pass.Session.withRuns (runs : List GoCommand.Run) (s : Session σ) :
    Session (σ × List GoCommand.Run) where
  files := s.files
  transcript := s.transcript
  cache := s.cache
  world := (s.world, runs)

namespace Command

open Registry Pass Pass.Session GoCommand

/-- The machine with every run of the go command written down. -/
def Machine.logging (machine : Machine σ) : Machine (σ × List Run) where
  post host requests world :=
    ((machine.post host requests world.1).1, (machine.post host requests world.1).2, world.2)
  go arguments world :=
    ((machine.go arguments world.1).1, (machine.go arguments world.1).2,
      world.2 ++ [⟨arguments, (machine.go arguments world.1).1⟩])
  terminal world := machine.terminal world.1
  withTerminal typed world := (machine.withTerminal typed world.1, world.2)
  disk path world := ((machine.disk path world.1).1, (machine.disk path world.1).2, world.2)
  isUtf8 := machine.isUtf8

/-- The setup of a command on the machine that writes a log. -/
def Setup.logging (setup : Setup σ) : Setup (σ × List Run) where
  machine := setup.machine.logging
  host := setup.host
  workspace := setup.workspace
  palette := setup.palette

/-! ## What is downloaded -/

/-- The paths that are requested: those that are named, or all checkouts for an update without any. -/
def requestedPaths (workspace : Workspace) (root : Storage.Node) (paths : List String)
    (update : Bool) : List String :=
  if paths.isEmpty && update then workspace.checkouts root else paths

/-- The path that is downloaded for a requested one: what is chosen by its record, or the path itself
where nothing is chosen. -/
def downloadedPath (preferRevisions : Bool) (requested : String) (record : Record) : String :=
  match fetchPath requested record preferRevisions with
  | .use path => path
  | .skip _ => requested

/-- A path of the registry's namespace is downloaded as it is. -/
theorem downloadedPath_of_registryNamespace (preferRevisions : Bool) {requested rest : String}
    (h : requested = registryNamespace ++ rest) (record : Record) :
    downloadedPath preferRevisions requested record = requested := by
  have hafter : Text.after? registryNamespace.toList requested.toList = some rest.toList :=
    Text.after?_eq_some.2 (by rw [h, String.toList_append])
  have hskip : fetchPath requested record preferRevisions = .skip .canonical := by
    rw [fetchPath, hafter]
    rfl
  rw [downloadedPath, hskip]

/-- A reply that is a success has a record for every request. -/
theorem length_of_records {host : String} {expected : Nat} {reply : Reply}
    {records : List Record} (h : reply.records host expected = .ok records) :
    records.length = expected := by
  unfold Reply.records at h
  split at h
  · simp at h
  · split at h
    · exact length_of_decodeRecords h
    · simp at h

namespace Setup

variable (setup : Setup σ) (update preferRevisions verbose : Bool)

theorem fst_choosePath (requested : String) (record : Record) (s : Session σ) :
    (setup.choosePath preferRevisions requested record s).1 =
      downloadedPath preferRevisions requested record := by
  unfold choosePath downloadedPath
  generalize fetchPath requested record preferRevisions = choice
  rcases choice with path | reason
  · rfl
  · cases reason <;> rfl

theorem choosePath_logging (requested : String) (record : Record) (s : Session σ)
    (runs : List Run) :
    setup.logging.choosePath preferRevisions requested record (s.withRuns runs) =
      ((setup.choosePath preferRevisions requested record s).1,
        (setup.choosePath preferRevisions requested record s).2.withRuns runs) := by
  unfold choosePath
  generalize fetchPath requested record preferRevisions = choice
  rcases choice with path | reason
  · rfl
  · cases reason <;> rfl

/-- The session behind a run of the go command, in which a failure is told. -/
def told (path : String) (exit : Exit) (s : Session σ) : Session σ :=
  match outcome path exit with
  | .fetched => s
  | .failed message => (setup.note .error message s).2

/-- One download: a path is chosen, the go command is run for it, and a failure is told. The result is
how the go command ended, and the session behind it. -/
def attempt (pair : String × Record) (s : Session σ) : Exit × Session σ :=
  let path := downloadedPath preferRevisions pair.1 pair.2
  let chosen := (setup.choosePath preferRevisions pair.1 pair.2 s).2
  let ended := setup.machine.go (getArguments verbose update path) chosen.world
  (ended.1, setup.told path ended.1 { chosen with world := ended.2 })

/-- The run of the go command in a download. -/
def attemptedRun (pair : String × Record) (s : Session σ) : Run :=
  ⟨getArguments verbose update (downloadedPath preferRevisions pair.1 pair.2),
    (setup.attempt update preferRevisions verbose pair s).1⟩

/-- The downloads behind the first one follow in any case. -/
theorem fetchAll_cons (pair : String × Record) (rest : List (String × Record)) (s : Session σ) :
    let attempted := setup.attempt update preferRevisions verbose pair s
    let ended := setup.fetchAll update preferRevisions verbose rest attempted.2
    setup.fetchAll update preferRevisions verbose (pair :: rest) s =
      (decide (attempted.1 = .status 0) && ended.1, ended.2) := by
  obtain ⟨requested, record⟩ := pair
  let path := downloadedPath preferRevisions requested record
  let chosen := (setup.choosePath preferRevisions requested record s).2
  let ended := setup.machine.go (getArguments verbose update path) chosen.world
  have hget : (get : StateM (Session σ) (Session σ)) chosen = (chosen, chosen) := rfl
  have hfetch : fetch setup.machine.go verbose update path chosen.world =
      (outcome path ended.1, ended.2) := rfl
  rw [fetchAll, run_bind, fst_choosePath, run_bind, hget]
  simp only [attempt, told]
  rw [hfetch]
  change _ = (decide (ended.1 = .status 0) && _, _)
  -- What is told, and what becomes of the result, depends on the outcome alone.
  cases houtcome : outcome path ended.1 with
  | fetched =>
    have hexit : ended.1 = .status 0 := (outcome_eq_fetched_iff path).1 houtcome
    rw [decide_eq_true hexit]
    rfl
  | failed message =>
    have hexit : ended.1 ≠ .status 0 := by
      rw [Ne, ← outcome_eq_fetched_iff path, houtcome]
      exact Download.noConfusion
    rw [decide_eq_false hexit]
    rfl

theorem told_logging (path : String) (exit : Exit) (s : Session σ) (runs : List Run) :
    setup.logging.told path exit (s.withRuns runs) = (setup.told path exit s).withRuns runs := by
  unfold told
  cases outcome path exit <;> rfl

/-- A download writes down its run. -/
theorem attempt_logging (pair : String × Record) (s : Session σ) (runs : List Run) :
    setup.logging.attempt update preferRevisions verbose pair (s.withRuns runs) =
      ((setup.attempt update preferRevisions verbose pair s).1,
        (setup.attempt update preferRevisions verbose pair s).2.withRuns
          (runs ++ [setup.attemptedRun update preferRevisions verbose pair s])) := by
  let path := downloadedPath preferRevisions pair.1 pair.2
  let chosen := (setup.choosePath preferRevisions pair.1 pair.2 s).2
  let ended := setup.machine.go (getArguments verbose update path) chosen.world
  -- The path is chosen alike, and the go command of the log ends as the other does.
  rw [attempt, choosePath_logging]
  exact congrArg (Prod.mk ended.1) (setup.told_logging path ended.1
    { chosen with world := ended.2 }
    (runs ++ [setup.attemptedRun update preferRevisions verbose pair s]))

/-- **Downloads are made one after another**: the go command is run once for each requested path, and
all downloads go well exactly if all of these runs do. -/
theorem fetchAll_logging (pairs : List (String × Record)) (s : Session σ) (runs : List Run) :
    ∃ more : List Run,
      setup.logging.fetchAll update preferRevisions verbose pairs (s.withRuns runs) =
        ((setup.fetchAll update preferRevisions verbose pairs s).1,
          (setup.fetchAll update preferRevisions verbose pairs s).2.withRuns (runs ++ more)) ∧
      more.map Run.arguments = pairs.map (fun pair =>
        getArguments verbose update (downloadedPath preferRevisions pair.1 pair.2)) ∧
      ((setup.fetchAll update preferRevisions verbose pairs s).1 = true ↔
        ∀ run ∈ more, run.exit = .status 0) := by
  -- By induction on the paths; the session and the log are those behind the downloads so far.
  induction pairs generalizing s runs with
  | nil =>
    refine ⟨[], ?_, rfl, ?_⟩
    · rw [List.append_nil]
      rfl
    · exact iff_of_true rfl (List.forall_mem_nil _)
  | cons pair pairs ih =>
    obtain ⟨more, hlog, harguments, hall⟩ := ih
      (setup.attempt update preferRevisions verbose pair s).2
      (runs ++ [setup.attemptedRun update preferRevisions verbose pair s])
    refine ⟨setup.attemptedRun update preferRevisions verbose pair s :: more, ?_, ?_, ?_⟩
    · rw [fetchAll_cons, fetchAll_cons, attempt_logging, hlog, List.append_assoc]
      rfl
    · rw [List.map_cons, List.map_cons, harguments]
      rfl
    · rw [fetchAll_cons, Bool.and_eq_true, decide_eq_true_eq, List.forall_mem_cons, hall]
      rfl

/-! ## A batch and its downloads -/

/-- The records of a batch for the newest of some paths. -/
def batch (paths : List String) (s : Session σ) : Except Failure (List Record) × σ :=
  setup.resolve (paths.map Request.latest) s.world

theorem length_of_batch {paths : List String} {s : Session σ} {records : List Record}
    (h : (setup.batch paths s).1 = .ok records) : records.length = paths.length := by
  have hlength := length_of_records h
  rwa [List.length_map] at hlength

section Batch

variable (paths : List String) (s : Session σ)

theorem ask_eq :
    setup.ask paths s = ((setup.batch paths s).1, { s with world := (setup.batch paths s).2 }) :=
  rfl

theorem download_eq :
    let requested := requestedPaths setup.workspace s.files paths update
    setup.download paths update preferRevisions verbose s =
      (if requested.isEmpty then setup.failed "no packages specified"
      else do
        match ← setup.ask requested with
        | .error failure => setup.failed failure.message
        | .ok records => setup.fetchAll update preferRevisions verbose (requested.zip records)) s :=
  rfl

variable {requested : List String}
  (hrequested : requestedPaths setup.workspace s.files paths update = requested)

include hrequested

theorem download_of_nothing (hnone : requested = []) :
    setup.download paths update preferRevisions verbose s =
      setup.failed "no packages specified" s := by
  rw [download_eq, hrequested, if_pos (List.isEmpty_iff.2 hnone)]

theorem download_of_error {failure : Failure} (hsome : requested ≠ [])
    (hbatch : (setup.batch requested s).1 = .error failure) :
    setup.download paths update preferRevisions verbose s =
      setup.failed failure.message { s with world := (setup.batch requested s).2 } := by
  rw [download_eq, hrequested, if_neg (mt List.isEmpty_iff.1 hsome), run_bind, ask_eq, hbatch]

theorem download_of_ok {records : List Record} (hsome : requested ≠ [])
    (hbatch : (setup.batch requested s).1 = .ok records) :
    setup.download paths update preferRevisions verbose s =
      setup.fetchAll update preferRevisions verbose (requested.zip records)
        { s with world := (setup.batch requested s).2 } := by
  rw [download_eq, hrequested, if_neg (mt List.isEmpty_iff.1 hsome), run_bind, ask_eq, hbatch]

end Batch

/-- A batch that has a record for every path makes the go command run for each of them; any other one
makes it run for none. -/
theorem download_logging (paths : List String) (s : Session σ) :
    let requested := requestedPaths setup.workspace s.files paths update
    let records := (setup.batch requested s).1
    let ended := setup.download paths update preferRevisions verbose s
    ∃ runs : List Run,
      setup.logging.download paths update preferRevisions verbose (s.withRuns []) =
        (ended.1, ended.2.withRuns runs) ∧
      (requested = [] → runs = [] ∧ ended.1 = false) ∧
      (requested ≠ [] → ∀ failure, records = .error failure → runs = [] ∧ ended.1 = false) ∧
      (requested ≠ [] → ∀ found, records = .ok found →
        found.length = requested.length ∧
        runs.map Run.arguments = (requested.zip found).map (fun pair =>
          getArguments verbose update (downloadedPath preferRevisions pair.1 pair.2)) ∧
        (ended.1 = true ↔ ∀ run ∈ runs, run.exit = .status 0)) := by
  intro requested records ended
  by_cases hempty : requested = []
  · have hended := setup.download_of_nothing update preferRevisions verbose paths s rfl hempty
    have hlogged := setup.logging.download_of_nothing update preferRevisions verbose paths
      (s.withRuns []) rfl hempty
    have hfalse : ended.1 = false := congrArg Prod.fst hended
    refine ⟨[], ?_, fun _ => ⟨rfl, hfalse⟩, fun hsome => absurd hempty hsome,
      fun hsome => absurd hempty hsome⟩
    rw [hlogged, show ended = _ from hended]
    rfl
  · -- The machine with the log gets the same records, so both go on alike.
    cases hrecords : records with
    | error failure =>
      have hended :=
        setup.download_of_error update preferRevisions verbose paths s rfl hempty hrecords
      have hlogged := setup.logging.download_of_error update preferRevisions verbose paths
        (s.withRuns []) rfl hempty hrecords
      have hfalse : ended.1 = false := congrArg Prod.fst hended
      refine ⟨[], ?_, fun hnone => absurd hnone hempty, fun _ _ _ => ⟨rfl, hfalse⟩,
        fun _ _ hfound => (nomatch hfound)⟩
      rw [hlogged, show ended = _ from hended]
      rfl
    | ok found =>
      have hended :=
        setup.download_of_ok update preferRevisions verbose paths s rfl hempty hrecords
      have hlogged := setup.logging.download_of_ok update preferRevisions verbose paths
        (s.withRuns []) rfl hempty hrecords
      obtain ⟨runs, hlog, harguments, hall⟩ := setup.fetchAll_logging update preferRevisions
        verbose (requested.zip found) { s with world := (setup.batch requested s).2 } []
      rw [← hended] at hlog hall
      refine ⟨runs, hlogged.trans hlog, fun hnone => absurd hnone hempty,
        fun _ _ hfailure => (nomatch hfailure), fun _ _ hfound => ?_⟩
      obtain rfl := Except.ok.inj hfound
      exact ⟨setup.length_of_batch hrecords, harguments, hall⟩

end Setup

/-! ## The command -/

/-- If a list comes from pairs, what stands beside an element comes from a pair of it. -/
theorem exists_of_mem_zip {α β γ δ : Type} {as : List α} {bs : List β} {cs : List γ} {g : γ → δ}
    {f : α × β → δ} (h : cs.map g = (as.zip bs).map f) {a : α} {c : γ}
    (hmem : (a, c) ∈ as.zip cs) : ∃ b, g c = f (a, b) := by
  induction as generalizing bs cs with
  | nil => exact absurd hmem List.not_mem_nil
  | cons a' as ih =>
    cases cs with
    | nil => exact absurd hmem List.not_mem_nil
    | cons c' cs =>
      cases bs with
      | nil => exact nomatch h
      | cons b bs =>
        rw [List.map_cons, List.zip_cons_cons, List.map_cons, List.cons.injEq] at h
        obtain heq | hrest := List.mem_cons.1 hmem
        · rw [Prod.mk.injEq] at heq
          exact ⟨b, by rw [heq.1, heq.2, h.1]⟩
        · exact ih h.2 hrest

section Get

variable {arguments paths : List String} {invocation : Invocation}
  {update preferRevisions verbose : Bool}

theorem execute_eq_download (machine : Machine σ) (environment : Environment) (s : Session σ)
    (hparse : Invocation.parse? arguments = some invocation)
    (haction : invocation.action = .get paths update preferRevisions verbose) :
    let setup : Setup σ :=
      ⟨machine, invocation.hostIn environment, environment.workspace, environment.palette⟩
    let ended := setup.download paths update preferRevisions verbose s
    execute machine environment arguments s = ((if ended.1 then 0 else 1), ended.2) := by
  have hperform := execute_eq_perform machine environment hparse s
  rw [haction] at hperform
  exact hperform

/-- **A command that downloads packages.** Whatever the registry replies, however the go command ends
and whatever else is set: the registry is asked for all requested paths at once. If nothing is
requested or the batch fails, the go command is not run and the command fails. Otherwise there is a
record for every path, the go command is run once for each of them, in their order, for the path that
its record chooses or else for the path itself, and the command succeeds exactly if all these runs do.
A requested path of the registry's namespace is downloaded as it is. -/
theorem execute_get (machine : Machine σ) (environment : Environment) (s : Session σ)
    (hparse : Invocation.parse? arguments = some invocation)
    (haction : invocation.action = .get paths update preferRevisions verbose) :
    let requested := requestedPaths environment.workspace s.files paths update
    let host := invocation.hostIn environment
    let reply := (machine.post host (requested.map Request.latest) s.world).1
    let records := reply.records host requested.length
    let ended := execute machine environment arguments s
    ∃ runs : List Run,
      execute machine.logging environment arguments (s.withRuns []) =
        (ended.1, ended.2.withRuns runs) ∧
      (requested = [] → runs = [] ∧ ended.1 = 1) ∧
      (requested ≠ [] → ∀ failure, records = .error failure → runs = [] ∧ ended.1 = 1) ∧
      (requested ≠ [] → ∀ found, records = .ok found →
        found.length = requested.length ∧
        runs.map Run.arguments = (requested.zip found).map (fun pair =>
          getArguments verbose update (downloadedPath preferRevisions pair.1 pair.2)) ∧
        (∀ path run, (path, run) ∈ requested.zip runs → (∃ rest, path = registryNamespace ++ rest) →
          run.arguments = getArguments verbose update path) ∧
        (ended.1 = 0 ↔ ∀ run ∈ runs, run.exit = .status 0)) := by
  intro requested host reply records ended
  -- Both command lines are downloads, one of them with the setup that writes a log.
  let setup : Setup σ := ⟨machine, host, environment.workspace, environment.palette⟩
  let downloaded := setup.download paths update preferRevisions verbose s
  let logged := setup.logging.download paths update preferRevisions verbose (s.withRuns [])
  have hended : ended = ((if downloaded.1 then 0 else 1), downloaded.2) :=
    execute_eq_download machine environment s hparse haction
  have hlogged : execute machine.logging environment arguments (s.withRuns []) =
      ((if logged.1 then 0 else 1), logged.2) :=
    execute_eq_download machine.logging environment (s.withRuns []) hparse haction
  have hsuccess : ended.1 = 0 ↔ downloaded.1 = true := by
    rw [hended]
    cases downloaded.1 <;> simp
  have hfailure : downloaded.1 = false → ended.1 = 1 := by
    intro hfalse
    rw [hended, hfalse]
    rfl
  have hrecords : (setup.batch requested s).1 = records :=
    congrArg (Reply.records host · reply) (List.length_map _)
  obtain ⟨runs, hlog, hnone, herror, hfound⟩ :=
    setup.download_logging update preferRevisions verbose paths s
  refine ⟨runs, ?_, ?_, ?_, ?_⟩
  · rw [hlogged, show logged = _ from hlog, hended]
  · exact fun hempty => (hnone hempty).imp_right hfailure
  · exact fun hsome failure hrefused =>
      (herror hsome failure (hrecords.trans hrefused)).imp_right hfailure
  · intro hsome found hok
    obtain ⟨hlength, harguments, hall⟩ := hfound hsome found (hrecords.trans hok)
    refine ⟨hlength, harguments, ?_, hsuccess.trans hall⟩
    rintro path run hmem ⟨rest, hnamespace⟩
    obtain ⟨record, hrun⟩ := exists_of_mem_zip harguments hmem
    rw [hrun, downloadedPath_of_registryNamespace preferRevisions hnamespace]

end Get

/-- A registry that knows only the last of three paths, and a go command that cannot download the
first. -/
def threeReplies : Machine Unit where
  post _ _ world := (.response 200
    ("[\x7b\"error\":\"not found\"\x7d,\x7b\x7d," ++
      "\x7b\"gopkgs_path\":\"gopkgs.com/b\",\"version\":2\x7d]"), world)
  go arguments world :=
    (.status (if arguments.contains "github.com/x/gone" then 1 else 0), world)
  terminal _ := none
  withTerminal _ world := world

/-- The path that nobody knows is tried all the same, and its failure stops neither the path of the
namespace nor the one that the registry has a version of. -/
theorem threeReplies_downloaded :
    let arguments := ["get", "-v", "github.com/x/gone", "gopkgs.com/w.v1", "github.com/a/b"]
    let start : Session Unit := { files := .directory [], world := () }
    Invocation.parse? arguments = some ⟨none,
        .get ["github.com/x/gone", "gopkgs.com/w.v1", "github.com/a/b"] false false true⟩ ∧
      (execute threeReplies { } arguments start).1 = 1 ∧
      (execute threeReplies.logging { } arguments (start.withRuns [])).2.world.2.map Run.arguments =
        [["get", "-v", "github.com/x/gone"], ["get", "-v", "gopkgs.com/w.v1"],
          ["get", "-v", "gopkgs.com/b.v2"]] := by
  intro arguments start
  have hparse : Invocation.parse? arguments = some ⟨none,
      .get ["github.com/x/gone", "gopkgs.com/w.v1", "github.com/a/b"] false false true⟩ := rfl
  obtain ⟨runs, hlog, -, -, hfound⟩ := execute_get threeReplies { } start hparse rfl
  have hreply : (threeReplies.post defaultHost [] ()).1.records defaultHost 3 = .ok
      [{ error := "not found" }, { }, { registryPath := "gopkgs.com/b", version := 2 }] := by
    decide +kernel
  obtain ⟨-, harguments, -⟩ := hfound (by decide) _ hreply
  refine ⟨hparse, by decide +kernel, ?_⟩
  rw [hlog]
  exact harguments.trans (by decide +kernel)

end Command

end PinnedImports
