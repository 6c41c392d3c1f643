import PinnedImports.Cache
import PinnedImports.Workspace

/-!
# Downloads by the go command

A package is downloaded by `go get`. A path that the workspace has already need not be downloaded.
-/

set_option autoImplicit false

namespace PinnedImports.GoCommand

/-- How a command ended. -/
inductive Exit where
  | status (code : Nat)
  /-- A signal ended it, and perhaps its memory was written out. -/
  | signal (number : Nat) (dumped : Bool)
  /-- There is no such command. -/
  | unavailable
deriving DecidableEq

/-- The names of the signals, from the first on. -/
def signalNames : List String :=
  ["SIGHUP", "SIGINT", "SIGQUIT", "SIGILL", "SIGTRAP", "SIGABRT", "SIGBUS", "SIGFPE", "SIGKILL",
    "SIGUSR1", "SIGSEGV", "SIGUSR2", "SIGPIPE", "SIGALRM", "SIGTERM", "SIGSTKFLT", "SIGCHLD",
    "SIGCONT", "SIGSTOP", "SIGTSTP", "SIGTTIN", "SIGTTOU", "SIGURG", "SIGXCPU", "SIGXFSZ",
    "SIGVTALRM", "SIGPROF", "SIGWINCH", "SIGIO", "SIGPWR", "SIGSYS"]

/-- How a command ended, in words. -/
def Exit.describe : Exit → String
  | status code => "exit status: " ++ toString code
  | signal number dumped =>
    let name := if number = 0 then none else signalNames[number - 1]?
    "signal: " ++ toString number ++ (name.map fun name => " (" ++ name ++ ")").getD "" ++
      (if dumped then " (core dumped)" else "")
  | unavailable => "No such file or directory (os error 2)"

/-- The arguments of the command that downloads a path. -/
def getArguments (verbose update : Bool) (path : String) : List String :=
  ["get"] ++ (if update then ["-u"] else []) ++ (if verbose then ["-v"] else []) ++ [path]

/-- What came of downloading a path. -/
def outcome (path : String) : Exit → Download
  | .status 0 => .fetched
  | .unavailable => .failed ("Failed to run go get: " ++ Exit.unavailable.describe)
  | exit => .failed ("go get " ++ path ++ " failed: " ++ exit.describe)

variable {σ : Type}

/-- Downloads a path. -/
def fetch (go : List String → σ → Exit × σ) (verbose update : Bool) (path : String) (world : σ) :
    Download × σ :=
  let (exit, world) := go (getArguments verbose update path) world
  (outcome path exit, world)

/-- Downloads a path unless the workspace has it. -/
def provide (workspace : Workspace) (go : List String → σ → Exit × σ) (verbose : Bool)
    (root : Storage.Node) (path : String) (world : σ) : Download × σ :=
  match workspace.directory? root path with
  | some _ => (.fetched, world)
  | none => fetch go verbose false path world

end PinnedImports.GoCommand
