import PinnedImports.Analysis
import PinnedImports.Cache
import PinnedImports.Confirm.Gate
import PinnedImports.Storage.Replace
import PinnedImports.Transcript

/-!
# Sessions

A session is what a run works on: the files, what has been told to the operator, what is remembered
of the registry and of downloads, and the state of the world around. The world is reached through
five collaborators. Each of them is a function on the world's state, so that it may answer the same
question in two ways at two times.
-/

set_option autoImplicit false

namespace PinnedImports.Pass

open Storage Registry

/-- The world that a run talks to; `σ` is its state. -/
structure Collaborators (σ : Type) where
  /-- The colours of what is told. -/
  palette : Text.Palette
  /-- The answer of the registry to a batch of requests. -/
  registry : List Request → σ → Except Failure (List Record) × σ
  /-- The name of the package at an import path, and notices that come with it. -/
  names : Node → String → σ → (Analysis.NameAnswer × List Notice) × σ
  /-- The outcome of a download. -/
  downloader : Node → String → σ → Download × σ
  /-- The answer of the operator and what asking wrote, or why asking failed. -/
  gate : Confirm.Prompt → σ → (Except String Confirm.Decision × Transcript) × σ
  /-- What the operating system refuses when the file at a path is replaced. -/
  disk : String → σ → Refusals × σ := fun _ world => (.none, world)

/-- The state of a run. -/
structure Session (σ : Type) where
  files : Node
  transcript : Transcript := ∅
  cache : Cache := ∅
  world : σ

namespace Session

variable {σ : Type}

/-- Adds to what has been told. -/
def tell (more : Transcript) : StateM (Session σ) Unit :=
  modify fun s => { s with transcript := s.transcript ++ more }

/-- Tells notices. -/
def notify (tools : Collaborators σ) (notices : List Notice) : StateM (Session σ) Unit :=
  tell (.ofNotices tools.palette notices)

/-- One record for each request, from the cache or from the registry. -/
def resolve (tools : Collaborators σ) (requests : List Request) :
    StateM (Session σ) (Except Failure (List Record)) := fun s =>
  let (answer, cache, world) := s.cache.resolve tools.registry requests s.world
  (answer, { s with cache := cache, world := world })

/-- The outcome of a download, from the cache or from the downloader. -/
def download (tools : Collaborators σ) (path : String) : StateM (Session σ) Download := fun s =>
  let (outcome, cache, world) := s.cache.download (tools.downloader s.files) path s.world
  (outcome, { s with cache := cache, world := world })

/-- The name of the package at an import path. -/
def lookup (tools : Collaborators σ) (path : String) :
    StateM (Session σ) Analysis.NameAnswer := do
  let s ← get
  let ((answer, notices), world) := tools.names s.files path s.world
  set { s with world := world }
  notify tools notices
  return answer

/-- The judgement of the imports of some files. -/
def analyze (tools : Collaborators σ) (files : List SourceFile) : StateM (Session σ) Analysis :=
  Analysis.ofFiles (lookup tools) files

/-- The operator's answer to a question. -/
def ask (tools : Collaborators σ) (prompt : Confirm.Prompt) :
    StateM (Session σ) (Except String Confirm.Decision) := fun s =>
  let ((answer, written), world) := tools.gate prompt s.world
  (answer, { s with world := world, transcript := s.transcript ++ written })

/-- What is refused when the file at a path is replaced. -/
def refusals (tools : Collaborators σ) (path : String) : StateM (Session σ) Refusals := fun s =>
  let (refuses, world) := tools.disk path s.world
  (refuses, { s with world := world })

end Session

end PinnedImports.Pass
