import PinnedImports.Registry.Record
import PinnedImports.Repository

/-!
# Choice of the path to import

`select` picks the import path for a repository from its record. A library is never pinned to an
unpublished revision: it gets the versioned path, or the bare path when nothing is published and
unpinned imports are allowed. An application gets the versioned path unless revisions are preferred
or nothing is published. `fetchPath` is the choice for a single download.
-/

set_option autoImplicit false

namespace PinnedImports.Registry

/-- Why a repository's imports stay as they are. -/
inductive SkipReason where
  /-- The registry reported an error for the repository. -/
  | refused (message : String)
  /-- The registry has no path for the repository. -/
  | unlisted
  /-- Nothing that a library may be pinned to is published. -/
  | noVersion
  /-- The path is already one of the registry's namespace. -/
  | canonical
  deriving Repr, DecidableEq

/-- The reason as it is told to the operator. -/
def SkipReason.message : SkipReason → String
  | refused message => message
  | unlisted => "not mirrored at gopkgs.com"
  | noVersion => "no versions available"
  | canonical => "already a gopkgs.com path"

/-- The choice for one repository. -/
inductive Selection where
  | use (path : String)
  | skip (reason : SkipReason)
  deriving Repr, DecidableEq

/-- The import path for a repository in a library or an application. -/
def select (r : Record) (library preferRevisions : Bool) : Selection :=
  if !r.error.isEmpty then .skip (.refused r.error)
  else if r.registryPath.isEmpty then .skip .unlisted
  else if library then
    if 0 < r.version then .use r.versionPath
    else if r.allowsUnpinned then .use r.registryPath
    else .skip .noVersion
  else if preferRevisions || r.version ≤ 0 then .use r.revisionPath
  else .use r.versionPath

/-- The path to download for a requested path; a skip means the requested path itself. -/
def fetchPath (requested : String) (r : Record) (preferRevisions : Bool) : Selection :=
  if (Text.after? registryNamespace.toList requested.toList).isSome then .skip .canonical
  else select r false preferRevisions

end PinnedImports.Registry
