import PinnedImports.Build.Header
import PinnedImports.Go.Source
import PinnedImports.Storage.Tree
import PinnedImports.Transcript

/-!
# Go packages in directories

A package is read from a directory: the source files that belong to the build by their names and
their constraints, as far as they can be read and parsed. The name that most of them declare is the
package's name, and files that declare another name are left out.
-/

set_option autoImplicit false

namespace PinnedImports

open Storage

/-- A source file of a package. -/
structure SourceFile where
  path : String
  text : String
  source : Go.Source

/-- The files of a package in one directory. -/
structure Package where
  dir : String
  name : String
  files : List SourceFile

/-- The source file of a text; none if the text has a syntax error. -/
def SourceFile.parse? (path text : String) : Option SourceFile :=
  (Go.Source.parse? text.toList).map fun source => ⟨path, text, source⟩

namespace Package

/-- Whether a name is that of a source file in the build: no test file, not hidden, and not for
another platform. -/
def isSourceName (name : String) : Bool :=
  let cs := name.toList
  (Text.before? ".go".toList cs).isSome && (Text.before? "_test.go".toList cs).isNone &&
    cs.head? != some '.' && cs.head? != some '_' && Build.Platform.host.allowsFileName name

/-- The source files in a directory, by name, with their contents. -/
def sources (root : Node) (dir : String) : Except Node.WalkError (List (String × Content)) :=
  (root.list dir).map fun entries => entries.filterMap fun (name, node) =>
    match node with
    | .file _ content => if isSourceName name then some (join dir name, content) else none
    | _ => none

/-- The paths of the source files in a directory, by name. -/
def discover (root : Node) (dir : String) : Except Node.WalkError (List String) :=
  (sources root dir).map fun found => found.map (·.1)

/-- What comes of a source file: it is unreadable, or it is parsed unless its constraints or a
syntax error leave it out. -/
def readFile (path : String) : Content → Except Notice (Option SourceFile)
  | .bytes _ =>
    .error ⟨.warn, "can't read " ++ path ++ ": stream did not contain valid UTF-8"⟩
  | .text text =>
    .ok (if Build.Platform.host.allowsSource text then SourceFile.parse? path text else none)

/-- The files that can be read and parsed, and the notices about unreadable ones. -/
def readFiles : List (String × Content) → List SourceFile × List Notice
  | [] => ([], [])
  | (path, content) :: rest =>
    let (files, notices) := readFiles rest
    match readFile path content with
    | .error notice => (files, notice :: notices)
    | .ok file? => (file?.toList ++ files, notices)

/-- The name that occurs most often; of several, the first. -/
def majority (names : List String) : Option String :=
  names.find? fun name => names.all fun other => names.count other ≤ names.count name

/-- The notice about a file that declares another package. -/
def strayNotice (expected : String) (file : SourceFile) : Notice :=
  ⟨.warn, "ignoring " ++ file.path ++ ": declares package " ++ file.source.package ++
    ", expected " ++ expected⟩

/-- The package of the files in a directory, and the notices about the files it leaves out. -/
def ofFiles (dir : String) (files : List SourceFile) : Option Package × List Notice :=
  match majority (files.map (·.source.package)) with
  | none => (none, [])
  | some name =>
    let (own, others) := files.partition fun file => file.source.package == name
    (some ⟨dir, name, own⟩, others.map (strayNotice name))

/-- Failure to list a package directory. -/
structure DirectoryError where
  dir : String
  cause : Node.WalkError
deriving DecidableEq

/-- The failure as it is told, with its cause behind it. -/
def DirectoryError.message (e : DirectoryError) : String :=
  "can't read package directory " ++ e.dir ++ ": " ++ e.cause.fullMessage

/-- The package in a directory and the notices about what was left out. There is none when no file
can be parsed. -/
def load (root : Node) (dir : String) :
    Except DirectoryError (Option Package × List Notice) :=
  match sources root dir with
  | .error cause => .error ⟨dir, cause⟩
  | .ok found =>
    let (files, notices) := readFiles found
    let (package?, more) := ofFiles dir files
    .ok (package?, notices ++ more)

end Package

end PinnedImports
