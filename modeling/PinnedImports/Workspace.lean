import PinnedImports.Package
import PinnedImports.Repository

/-!
# Workspaces

A workspace is a list of root directories, each with the packages of an import path in
`src/<import path>`. The first root that has a package counts.
-/

set_option autoImplicit false

namespace PinnedImports

open Storage

/-- The roots of a workspace, in the order they are searched. -/
structure Workspace where
  roots : List String
deriving DecidableEq

namespace Workspace

/-- The pieces of a list of paths with colons between them. -/
def splitPaths (paths : String) : List String :=
  (Text.split (· == ':') paths.toList).map String.ofList

/-- The workspace of the environment: the roots that are named in it, or else `go` in the home
directory. -/
def ofEnvironment (gopath home : Option String) : Workspace :=
  let named := ((gopath.map splitPaths).getD []).filter (!·.isEmpty)
  if named.isEmpty then ⟨home.toList.map (join · "go")⟩ else ⟨named⟩

/-- The directory of an import path. A relative or absolute path is no import path. -/
def directory? (w : Workspace) (root : Node) (path : String) : Option String :=
  if path.isEmpty || path.toList.head? == some '.' || isAbsolute path then none
  else (w.roots.map fun base => join (join base "src") path).find? root.hasDirectory

/-- Why the name of a package is not known. -/
inductive NameError where
  /-- No root of the workspace has the import path. -/
  | missing (path : String)
  | directory (cause : Package.DirectoryError)
  /-- The directory has no source file that takes part in the build. -/
  | noSources (dir : String)
deriving DecidableEq

/-- The reason as it is told. -/
def NameError.message : NameError → String
  | missing path => "can't find import " ++ path
  | directory cause => cause.message
  | noSources dir => "no buildable Go source files in " ++ dir

/-- The package name that the files in a directory declare, and the notices about files that were
left out. -/
def nameIn (root : Node) (dir : String) : Except NameError String × List Notice :=
  match Package.load root dir with
  | .error cause => (.error (.directory cause), [])
  | .ok (some package, notices) => (.ok package.name, notices)
  | .ok (none, notices) => (.error (.noSources dir), notices)

/-- The declared name of the package at an import path, and the notices about files that were left
out. -/
def packageName (w : Workspace) (root : Node) (path : String) :
    Except NameError String × List Notice :=
  match w.directory? root path with
  | none => (.error (.missing path), [])
  | some dir => nameIn root dir

/-- The import paths of the registry's checkouts below a root: directories in the registry's
namespace that hold a `.git` directory. -/
def checkoutsBelow (root : Node) (base : String) : List String :=
  let source := join base "src"
  let top := join source "gopkgs.com"
  match root.walkFrom (fun name _ => name != ".git") top with
  | .error _ => []
  | .ok entries => entries.filterMap fun (path, node) =>
    if node.isDirectory && root.hasDirectory (join path ".git") then
      (Text.after? (join source "").toList path.toList).map String.ofList
    else none

/-- The import paths of all checkouts from the registry. -/
def checkouts (w : Workspace) (root : Node) : List String :=
  w.roots.flatMap (checkoutsBelow root)

end Workspace

end PinnedImports
