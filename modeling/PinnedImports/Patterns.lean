import PinnedImports.Text.Glob
import PinnedImports.Workspace

/-!
# Package patterns

A pattern names package directories: a directory, `dir/...` for a directory and everything below it
that holds source files, or an import path of the workspace. Below `dir/...` a filter leaves out
entries, and with each directory all that lies below it.
-/

set_option autoImplicit false

namespace PinnedImports

open Storage

/-- Which entries below a `dir/...` pattern are left out. -/
structure Filter where
  globs : List Text.Glob
  /-- Hidden entries, entries that begin with an underscore and test data are left out too. -/
  defaults : Bool

/-- An exclude pattern that is no glob. -/
structure FilterError where
  pattern : String
  cause : Text.Glob.ParseError

/-- The mistake as it is told, with its cause behind it. -/
def FilterError.message (e : FilterError) : String :=
  "Invalid exclude pattern '" ++ e.pattern ++ "': " ++ e.cause.message

namespace Filter

/-- The globs of some patterns; the first pattern that is none is an error. -/
def globs? : List String → Except FilterError (List Text.Glob)
  | [] => .ok []
  | pattern :: rest =>
    match Text.Glob.parse pattern with
    | .error cause => .error ⟨pattern, cause⟩
    | .ok glob => (globs? rest).map (glob :: ·)

/-- The filter of some exclude patterns. -/
def ofPatterns (patterns : List String) (defaults : Bool) : Except FilterError Filter :=
  (globs? patterns).map (⟨·, defaults⟩)

/-- The names that are left out by default. -/
def isIgnoredName (name : String) : Bool :=
  name.toList.head? == some '.' || name.toList.head? == some '_' || name == "testdata"

/-- Whether an entry is left out, by its name or by its path. -/
def excludes (filter : Filter) (name path : String) : Bool :=
  (filter.defaults && isIgnoredName name) ||
    filter.globs.any fun glob => glob.accepts name || glob.accepts path

end Filter

namespace Patterns

/-- The directory of a `dir/...` pattern. -/
def recursiveRoot? (pattern : String) : Option String :=
  if pattern = "..." then some "."
  else (Text.before? "/...".toList pattern.toList).map fun cs =>
    if cs.isEmpty then "/" else String.ofList cs

/-- The paths of the directories that hold source files, among some entries. -/
def packagesAmong (root : Node) : List (String × Node) → Except Node.WalkError (List String)
  | [] => .ok []
  | (path, node) :: rest =>
    if node.isDirectory then
      match Package.discover root path with
      | .error e => .error e
      | .ok found =>
        (packagesAmong root rest).map fun dirs => if found.isEmpty then dirs else path :: dirs
    else packagesAmong root rest

/-- The package directories at and below a directory that the filter admits. -/
def below (root : Node) (filter : Filter) (dir : String) :
    Except Node.WalkError (List String) :=
  match root.walkFrom (fun name path => !filter.excludes name path) dir with
  | .error e => .error e
  | .ok entries => packagesAmong root entries

/-- The package directories of one pattern, or a notice that there is none. -/
def expand (root : Node) (filter : Filter) (workspace : Workspace) (pattern : String) :
    Except Node.WalkError (List String × List Notice) :=
  match recursiveRoot? pattern with
  | some dir => (below root filter dir).map (·, [])
  | none =>
    if root.hasDirectory pattern then .ok ([pattern], [])
    else
      match workspace.directory? root pattern with
      | some dir => .ok ([dir], [])
      | none => .ok ([], [⟨.warn, "can't find package " ++ pattern⟩])

/-- The package directories of several patterns, with the notices up to the first failure. -/
def expandAll (root : Node) (filter : Filter) (workspace : Workspace) :
    List String → Except Node.WalkError (List String) × List Notice
  | [] => (.ok [], [])
  | pattern :: rest =>
    match expand root filter workspace pattern with
    | .error e => (.error e, [])
    | .ok (dirs, notices) =>
      let (others, more) := expandAll root filter workspace rest
      (others.map (dirs ++ ·), notices ++ more)

/-- The package directories that the patterns name. No pattern means the current directory. -/
def packageDirs (root : Node) (filter : Filter) (workspace : Workspace) (patterns : List String) :
    Except Node.WalkError (List String) × List Notice :=
  if patterns.isEmpty then (.ok ["."], []) else expandAll root filter workspace patterns

end Patterns

end PinnedImports
