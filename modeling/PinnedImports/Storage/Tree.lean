import PinnedImports.Storage.Place

/-!
# A tree of files

Directories hold named entries in increasing order of the names; the other entries are regular
files with permission bits and symbolic links. `Node.locate` follows a path, links included, to the
place it names; `Node.walk` lists a directory and what lies below it without following links.
-/

set_option autoImplicit false

namespace PinnedImports.Storage

/-- The content of a regular file: UTF-8 text, or bytes that are none. -/
inductive Content where
  | text (s : String)
  | bytes (data : List UInt8)
  deriving Repr, DecidableEq

/-- An entry of the file system. -/
inductive Node where
  | file (mode : Nat) (content : Content)
  | link (target : String)
  | directory (entries : List (String × Node))

/-- The failures of the operating system. -/
inductive OsError where
  | notFound
  | notDirectory
  | isDirectory
  | busy
  | linkLoop
  /-- Any other failure, in the words of the operating system. -/
  | other (message : String)
  deriving Repr, DecidableEq

/-- The failure as the operating system words it. -/
def OsError.message : OsError → String
  | notFound => "No such file or directory (os error 2)"
  | notDirectory => "Not a directory (os error 20)"
  | isDirectory => "Is a directory (os error 21)"
  | busy => "Device or resource busy (os error 16)"
  | linkLoop => "Too many levels of symbolic links (os error 40)"
  | other message => message

namespace Node

/-- Whether the entry is a directory. -/
def isDirectory : Node → Bool
  | directory _ => true
  | _ => false

/-- Whether the entry is a regular file. -/
def isFile : Node → Bool
  | file .. => true
  | _ => false

/-- Whether the entry is a symbolic link. -/
def isLink : Node → Bool
  | link _ => true
  | _ => false

/-- The entries of a directory; none of anything else. -/
def entries : Node → List (String × Node)
  | directory es => es
  | _ => []

/-- The entry below a directory that the names lead to, without following links. -/
def descend? (root : Node) : List String → Option Node
  | [] => some root
  | name :: names =>
    match root.entries.lookup name with
    | some child => child.descend? names
    | none => none

/-- The list with `node` under `name`, in its place. -/
def putEntry (name : String) (node : Node) : List (String × Node) → List (String × Node)
  | [] => [(name, node)]
  | entry :: rest =>
    if name < entry.1 then (name, node) :: entry :: rest
    else if name = entry.1 then (name, node) :: rest
    else entry :: putEntry name node rest

/-- The tree with `node` at the place that the names lead to. Missing directories are made. -/
def put (root : Node) (node : Node) : List String → Node
  | [] => node
  | name :: names =>
    let child := (root.entries.lookup name).getD (directory [])
    directory (putEntry name (child.put node names) root.entries)

/-- The tree without the entry that the names lead to. -/
def remove (root : Node) : List String → Node
  | [] => root
  | [name] => directory (root.entries.filter fun entry => entry.1 != name)
  | name :: names =>
    match root.entries.lookup name with
    | some child => directory (putEntry name (child.remove names) root.entries)
    | none => root

/-! ## Following paths -/

/-- Where the search for a path stands: at its end, or at a link that has to be followed. -/
inductive Search where
  /-- The names from the root to the place that was found. -/
  | found (names : List String)
  /-- A link in the directory `names`, and the components to follow from there. -/
  | linked (names : List String) (components : List String)

/-- Follows components from the directory `names`, up to the first link. The last component is
followed through a link only when `final` says so. -/
def search (root : Node) (final : Bool) (names : List String) :
    List String → Except OsError Search
  | [] => .ok (.found names)
  | name :: rest =>
    match root.descend? names with
    | some (directory es) =>
      if name = "." then search root final names rest
      else if name = ".." then search root final names.dropLast rest
      else
        match es.lookup name with
        | none => .error .notFound
        | some (link target) =>
          if rest.isEmpty && !final then .ok (.found (names ++ [name]))
          else if isAbsolute target then .error .notFound
          -- A target is read from the directory that holds the link.
          else .ok (.linked names (components target.toList ++ rest))
        | some _ => search root final (names ++ [name]) rest
    | some _ => .error .notDirectory
    | none => .error .notFound

/-- The place that components lead to; at most as many links as the first argument says are
followed. -/
def follow (root : Node) (final : Bool) : Nat → List String → List String →
    Except OsError (List String)
  | 0, _, _ => .error .linkLoop
  | links + 1, names, rest =>
    match search root final names rest with
    | .error e => .error e
    | .ok (.found names) => .ok names
    | .ok (.linked names rest) => follow root final links names rest

/-- How many links a lookup follows before it gives up. -/
def maxLinks : Nat := 40

/-- The place that a path names. A link at its end is followed when `final` is set. -/
def locate (root : Node) (final : Bool) (path : String) : Except OsError (List String) :=
  if path.isEmpty || isAbsolute path then .error .notFound
  else follow root final (maxLinks + 1) [] (components path.toList)

/-- The entry that a path names. A link at its end is followed when `final` is set. -/
def entryAt (root : Node) (final : Bool) (path : String) : Except OsError Node :=
  match root.locate final path with
  | .error e => .error e
  | .ok names =>
    match root.descend? names with
    | some node => .ok node
    | none => .error .notFound

/-- The entry behind a path, through a link at its end. -/
def stat (root : Node) (path : String) : Except OsError Node := root.entryAt true path

/-- The entry of a path itself. -/
def lstat (root : Node) (path : String) : Except OsError Node := root.entryAt false path

/-- Whether a directory stands behind the path. -/
def hasDirectory (root : Node) (path : String) : Bool :=
  match root.stat path with
  | .ok node => node.isDirectory
  | .error _ => false

/-! ## Walking -/

mutual

/-- The entry and everything below it that `keep` admits, with paths; an entry comes before what
lies below it, and siblings come by name. Nothing is listed below an entry that is left out. -/
def walk (keep : String → String → Bool) (path : String) : Node → List (String × Node)
  | directory es => (path, directory es) :: walkEntries keep path es
  | node => [(path, node)]

/-- The admitted entries of the directory `path` and everything below them. -/
def walkEntries (keep : String → String → Bool) (path : String) :
    List (String × Node) → List (String × Node)
  | [] => []
  | (name, node) :: rest =>
    (if keep name (join path name) then walk keep (join path name) node else []) ++
      walkEntries keep path rest

end

/-- The failure of a walk at a path. -/
structure WalkError where
  path : String
  cause : OsError
  deriving Repr, DecidableEq

/-- The failure of a walk as it is told, without its cause repeated. -/
def WalkError.message (e : WalkError) : String :=
  "IO error for operation on " ++ e.path ++ ": " ++ e.cause.message

/-- The failure of a walk as it is told, with its cause behind it. -/
def WalkError.fullMessage (e : WalkError) : String := e.message ++ ": " ++ e.cause.message

/-- The entries that a walk from `path` starts in: those of the directory behind it, through a link
as well, and none when something else stands there. -/
def startEntries (root : Node) (path : String) :
    Except WalkError (Node × List (String × Node)) :=
  match root.lstat path with
  | .error e => .error ⟨path, e⟩
  | .ok node =>
    if node.isLink then
      match root.stat path with
      | .error e => .error ⟨path, e⟩
      | .ok behind => .ok (node, behind.entries)
    else .ok (node, node.entries)

/-- All entries from `path` on, itself first and admitted in any case. -/
def walkFrom (root : Node) (keep : String → String → Bool) (path : String) :
    Except WalkError (List (String × Node)) :=
  (root.startEntries path).map fun (node, entries) =>
    (path, node) :: walkEntries keep path entries

/-- The entries of the directory behind `path`, by name. -/
def list (root : Node) (path : String) : Except WalkError (List (String × Node)) :=
  (root.startEntries path).map (·.2)

end Node

end PinnedImports.Storage
