/-!
# Records of the package registry

The registry maps a repository, and optionally a revision of it, to its place under the registry's
namespace. A record tells that place, the latest published version, the pinned revision and whether
imports may stay unpinned. The paths and documentation pages of a record are computed here.
-/

set_option autoImplicit false

namespace PinnedImports.Registry

/-- A question to the registry. An empty revision asks for the latest one. -/
structure Request where
  path : String
  revision : String := ""
  deriving Repr, DecidableEq

/-- The question for the latest state of a path. -/
def Request.latest (path : String) : Request := ⟨path, ""⟩

/-- The registry's answer to one request. When `error` is not empty, no path of the record means
anything. A version of zero or below means that nothing is published. -/
structure Record where
  path : String := ""
  /-- The place of the repository under the registry's namespace; empty when it has none. -/
  registryPath : String := ""
  version : Int := 0
  revision : String := ""
  allowsUnpinned : Bool := false
  error : String := ""
  documentationPrefix : String := ""
  deriving Repr, DecidableEq

instance : Inhabited Record := ⟨{ }⟩

namespace Record

/-- The path pinned to the revision, or the bare path when no revision is known. -/
def revisionPath (r : Record) : String :=
  if r.revision.isEmpty then r.registryPath else r.registryPath ++ ".r" ++ r.revision

/-- The path of the published version, or the revision path when nothing is published. -/
def versionPath (r : Record) : String :=
  if 0 < r.version then r.registryPath ++ ".v" ++ toString r.version else r.revisionPath

/-- The documentation page of the published version. -/
def versionDocumentation (r : Record) : String := r.documentationPrefix ++ r.versionPath

/-- The documentation page of the revision. -/
def revisionDocumentation (r : Record) : String := r.documentationPrefix ++ r.revisionPath

end Record

end PinnedImports.Registry
