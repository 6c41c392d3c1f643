import PinnedImports.Text.Blank

/-!
# Repositories of import paths

An import path belongs to a hosted repository when it begins with the name of one: an owner and a
repository on GitHub, a project on Google Code, or a name under the registry's own namespace. The
text of that beginning is the repository's key. `owns` states which paths lie in a repository, and
`replaceKey?` moves a path from one repository to another.
-/

set_option autoImplicit false

namespace PinnedImports

/-- Where every path of the registry's own namespace begins. -/
def registryNamespace : String := "gopkgs.com/"

/-- The families of hosts whose repositories are recognised. -/
inductive Host where
  | gitHub
  | googleCode
  | registry
  deriving Repr, DecidableEq

/-- The repository that an import path begins with. -/
structure Repository where
  host : Host
  /-- The beginning of the path that names the repository. -/
  key : String
  deriving Repr, DecidableEq

namespace Repository

/-- Whether the repository is one of the registry's own namespace. -/
def isCanonical (r : Repository) : Bool := r.host = .registry

/-- The characters of GitHub owners and repositories. -/
def isGitHubNameChar (c : Char) : Bool := c.isAlphanum || c == '_' || c == '.' || c == '-'

/-- The characters of Google Code projects. -/
def isProjectChar (c : Char) : Bool := c.isAlphanum || c == '-'

/-- The longest beginning of characters that satisfy `p`, unless it is empty. -/
def nameOf? (p : Char → Bool) (cs : List Char) : Option (List Char) :=
  match cs.takeWhile p with
  | [] => none
  | name => some name

/-- `github.com/owner/repository`. -/
def gitHubKey? (path : List Char) : Option (List Char) := do
  let rest ← Text.after? "github.com/".toList path
  let owner ← nameOf? isGitHubNameChar rest
  let rest ← Text.after? ['/'] (rest.drop owner.length)
  let name ← nameOf? isGitHubNameChar rest
  return "github.com/".toList ++ owner ++ ['/'] ++ name

/-- A dot and a name after it, or nothing. -/
def dottedEnding (cs : List Char) : List Char :=
  match cs with
  | '.' :: rest =>
    match rest.takeWhile Char.isAlphanum with
    | [] => []
    | name => '.' :: name
  | _ => []

/-- `code.google.com/p/project` with an optional dotted ending. -/
def googleCodeKey? (path : List Char) : Option (List Char) := do
  let rest ← Text.after? "code.google.com/p/".toList path
  let project ← nameOf? isProjectChar rest
  return "code.google.com/p/".toList ++ project ++ dottedEnding (rest.drop project.length)

/-- `gopkgs.com/name`. -/
def registryKey? (path : List Char) : Option (List Char) := do
  let rest ← Text.after? registryNamespace.toList path
  let name ← nameOf? Char.isAlphanum rest
  return registryNamespace.toList ++ name

/-- The repository that the path begins with, if it is of a known host. -/
def ofImportPath? (path : String) : Option Repository :=
  let cs := path.toList
  match gitHubKey? cs with
  | some key => some ⟨.gitHub, String.ofList key⟩
  | none =>
    match googleCodeKey? cs with
    | some key => some ⟨.googleCode, String.ofList key⟩
    | none => (registryKey? cs).map fun key => ⟨.registry, String.ofList key⟩

end Repository

/-- What follows the repository key in a path that is the key itself or a package below it. -/
def packageWithin? (key path : String) : Option (List Char) :=
  match Text.after? key.toList path.toList with
  | some [] => some []
  | some ('/' :: rest) => some ('/' :: rest)
  | _ => none

/-- Whether the path is the repository `key` itself or a package inside it. -/
def owns (key path : String) : Bool := (packageWithin? key path).isSome

/-- The path with `replacement` in place of the repository key, if the path lies in the
repository. -/
def replaceKey? (key path replacement : String) : Option String :=
  (packageWithin? key path).map fun rest => replacement ++ String.ofList rest

end PinnedImports
