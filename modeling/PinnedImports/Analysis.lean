import PinnedImports.Dictionary
import PinnedImports.Go.TypeShape
import PinnedImports.Package
import PinnedImports.Repository

/-!
# Which imports may change

Every import of a known repository is judged in every file of a package. It has to keep its path if
it is already one of the registry's namespace, if its package name cannot be found out, if its uses
cannot be attributed to it, or if a run-time comparison names one of its types. A path that has to
be kept in one file is disabled in the whole package; the other paths are eligible, under the key
of their repository.
-/

set_option autoImplicit false

namespace PinnedImports

/-- Why an import keeps its path. -/
inductive KeepReason where
  /-- The path is already one of the registry's namespace. -/
  | canonical
  /-- The name of the imported package is not known. -/
  | unknownName (message : String)
  /-- The uses of the import cannot be attributed to it. -/
  | unattributed (name : String)
  | comparison (found : Go.TypeComparison)
deriving DecidableEq

/-- The reason as it is told. -/
def KeepReason.message : KeepReason → String
  | canonical => "already canonical"
  | unknownName message => message
  | unattributed name => "imported as '" ++ name ++ "', uses can't be analyzed"
  | comparison (.assertion line) => "type assertion at line " ++ toString line
  | comparison (.switchCase line) => "case in type switch at line " ++ toString line

/-- An import that keeps its path, in one file. -/
structure KeptImport where
  path : String
  file : String
  reason : KeepReason
deriving DecidableEq

/-- The first comparison with a type of the package in a file. -/
def SourceFile.typeComparison? (file : SourceFile) (package : String) :
    Option Go.TypeComparison :=
  Go.typeComparison? file.text.toList file.source.code package

/-- Why a file keeps an import that it refers to by a name. -/
def keepReason? (file : SourceFile) (name : String) : Option KeepReason :=
  if name = "" ∨ name = "_" ∨ name = "." then some (.unattributed name)
  else (file.typeComparison? name).map .comparison

/-- The judgement of a package's imports. -/
structure Analysis where
  /-- The paths that are kept in all files. -/
  disabled : StringSet
  /-- Every import that made a path be kept, by file and place. -/
  kept : List KeptImport
  /-- The eligible paths of each repository. -/
  eligible : Dictionary StringSet

namespace Analysis

/-- The paths whose package name is not known, each once, with the first message about it. -/
def unresolved (a : Analysis) : List (String × String) :=
  go [] (a.kept.filterMap fun kept =>
    match kept.reason with
    | .unknownName message => some (kept.path, message)
    | _ => none)
where
  /-- The entries whose path is not among `seen`, each path once. -/
  go (seen : List String) : List (String × String) → List (String × String)
    | [] => []
    | entry :: rest =>
      if seen.contains entry.1 then go seen rest else entry :: go (entry.1 :: seen) rest

/-- The eligible repositories in increasing order. -/
def keys (a : Analysis) : List String := a.eligible.keys

/-- A package name or what is told of its lookup. -/
abbrev NameAnswer : Type := Except String String

variable {σ : Type}

/-- The name of the package at a path, looked up only the first time. -/
def nameOf (lookup : String → σ → NameAnswer × σ) (path : String)
    (known : Dictionary NameAnswer) (world : σ) : NameAnswer × Dictionary NameAnswer × σ :=
  match known.get? path with
  | some answer => (answer, known, world)
  | none =>
    let (answer, world) := lookup path world
    (answer, known.insert path answer, world)

/-- Why an import of a repository is kept in a file. -/
def judge (lookup : String → σ → NameAnswer × σ) (file : SourceFile) (spec : Go.Import)
    (repository : Repository) (known : Dictionary NameAnswer) (world : σ) :
    Option KeepReason × Dictionary NameAnswer × σ :=
  if repository.isCanonical then (some .canonical, known, world)
  else
    -- A name in the specification makes the lookup of the package name needless.
    match spec.name with
    | some name => (keepReason? file name, known, world)
    | none =>
      let (answer, known, world) := nameOf lookup spec.path known world
      match answer with
      | .ok name => (keepReason? file name, known, world)
      | .error message => (some (.unknownName message), known, world)

/-- The imports that are kept among the given ones, each in its file. -/
def keptAmong (lookup : String → σ → NameAnswer × σ) :
    List (SourceFile × Go.Import) → Dictionary NameAnswer → σ → List KeptImport × σ
  | [], _, world => ([], world)
  | (file, spec) :: rest, known, world =>
    match Repository.ofImportPath? spec.path with
    | none => keptAmong lookup rest known world
    | some repository =>
      let (reason?, known, world) := judge lookup file spec repository known world
      let (others, world) := keptAmong lookup rest known world
      (reason?.toList.map (⟨spec.path, file.path, ·⟩) ++ others, world)

/-- The imports of a package, each in its file. -/
def occurrences (files : List SourceFile) : List (SourceFile × Go.Import) :=
  files.flatMap fun file => file.source.imports.map (file, ·)

/-- The eligible paths of each repository with one more. -/
def addEligible (disabled : StringSet) (eligible : Dictionary StringSet) (path : String) :
    Dictionary StringSet :=
  if disabled.contains path then eligible
  else
    match Repository.ofImportPath? path with
    | none => eligible
    | some repository =>
      eligible.insert repository.key (((eligible.get? repository.key).getD ∅).insert path ())

/-- The judgement of the imports of some files that form a package. -/
def ofFiles (lookup : String → σ → NameAnswer × σ) (files : List SourceFile) (world : σ) :
    Analysis × σ :=
  let found := occurrences files
  let (kept, world) := keptAmong lookup found ∅ world
  let disabled : StringSet := .ofList (kept.map fun entry => (entry.path, ()))
  let paths := found.map fun (_, spec) => spec.path
  (⟨disabled, kept, paths.foldl (addEligible disabled) ∅⟩, world)

end Analysis

end PinnedImports
