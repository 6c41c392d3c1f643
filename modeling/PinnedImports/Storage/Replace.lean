import PinnedImports.Storage.Tree

/-!
# Replacing a file as a whole

The content of a file is exchanged in steps (`replace`): the text goes to a new file in the same
directory, which takes over the permission bits and is then renamed over the old one. So a link at the
path becomes a regular file. The operating system may refuse each step (`Refusals`). The new file is
removed again when a step behind its making fails; that its removal goes well is taken for granted.
-/

set_option autoImplicit false

namespace PinnedImports.Storage

/-! ## Failures -/

/-- The steps of a replacement. -/
inductive Step where
  /-- The old file is looked at. -/
  | stat
  /-- The new file is made. -/
  | create
  /-- The text is written to it. -/
  | write
  /-- The text is brought to the disk. -/
  | sync
  /-- The new file takes over the permission bits. -/
  | setMode
  /-- The new file is renamed over the old one. -/
  | rename
  deriving Repr, DecidableEq

/-- What the operating system refuses of a replacement, beside what the tree does not admit. -/
abbrev Refusals : Type := Step → Option OsError

namespace Refusals

/-- Nothing is refused. -/
def none : Refusals := fun _ => .none

end Refusals

/-- Failure of a replacement. -/
inductive ReplaceError where
  /-- There is nothing behind the path. -/
  | stat (path : String) (cause : OsError)
  /-- The new file cannot be made in the directory. -/
  | create (dir : String) (cause : OsError)
  /-- The text or the permission bits cannot be given to the new file. -/
  | fill (cause : OsError)
  /-- The new file cannot take the place of the old one. -/
  | rename (path : String) (cause : OsError)
  deriving Repr, DecidableEq

/-- The failure as it is told, with its cause behind it. -/
def ReplaceError.message : ReplaceError → String
  | stat path cause => "Failed to stat " ++ path ++ ": " ++ cause.message
  | create dir cause =>
    "Failed to create temporary file in " ++ dir ++ ": " ++ cause.message
  | fill cause => cause.message
  | rename path cause =>
    "Failed to replace " ++ path ++ ": failed to persist temporary file: " ++ cause.message ++
      ": " ++ cause.message

/-- What a step comes to: its refusal is told, or what the tree has to say. -/
def Refusals.outcome {α : Type} (refuses : Refusals) (step : Step) (tell : OsError → ReplaceError)
    (result : Except OsError α) : Except ReplaceError α :=
  match refuses step with
  | some e => .error (tell e)
  | .none => result.mapError tell

/-! ## The new file -/

/-- The permission bits of an entry; directories and links have fixed ones. -/
def Node.mode : Node → Nat
  | .file mode _ => mode
  | .link _ => 0o777
  | .directory _ => 0o755

/-- The directory in which the new file for a path is made. -/
def directoryOf (path : String) : String := if (parent path).isEmpty then "." else parent path

/-- The length of the longest name. -/
def longest : List (String × Node) → Nat
  | [] => 0
  | (name, _) :: rest => max name.length (longest rest)

/-- A name that is longer than all others. -/
def freshName (es : List (String × Node)) : String :=
  String.ofList ('.' :: List.replicate (longest es) 'x')

namespace Node

/-- The place of the directory behind a path, and its entries. -/
def directoryAt? (root : Node) (path : String) : Option (List String × List (String × Node)) :=
  match root.locate true path with
  | .error _ => none
  | .ok place =>
    match root.descend? place with
    | some (directory es) => some (place, es)
    | _ => none

/-- The entries with the first one of a name changed. -/
def alterEntry (name : String) (change : Node → Node) :
    List (String × Node) → List (String × Node)
  | [] => []
  | entry :: rest =>
    if name = entry.1 then (entry.1, change entry.2) :: rest
    else entry :: alterEntry name change rest

/-- The tree with the entries of the directory at a place changed. -/
def alter (change : List (String × Node) → List (String × Node)) : List String → Node → Node
  | [], directory es => directory (change es)
  | name :: names, directory es => directory (alterEntry name (alter change names) es)
  | _, node => node

/-- The place at which a file can be renamed to `path`. -/
def renameTarget (root : Node) (path : String) : Except OsError (List String) :=
  let names := components path.toList
  let last := names.getLast?.getD ""
  if path.toList.getLast? = some '/' then .error .notDirectory
  else if last = "." ∨ last = ".." then .error .busy
  else
    -- A link at the path is replaced itself, so it is not followed.
    match root.locate false path with
    | .error e => .error e
    | .ok place =>
      match root.descend? place with
      | some (directory _) => .error .isDirectory
      | _ => .ok place

end Node

/-- Where a new file is: its directory and its name there. -/
structure Scratch where
  dir : List String
  name : String

namespace Scratch

open Node

/-- The new file as it is now. -/
def get? (scratch : Scratch) (root : Node) : Option Node :=
  root.descend? (scratch.dir ++ [scratch.name])

/-- The tree with the new file as `entry`. -/
def put (scratch : Scratch) (entry : Node) (root : Node) : Node :=
  root.alter (putEntry scratch.name entry) scratch.dir

/-- The tree without the new file. -/
def drop (scratch : Scratch) (root : Node) : Node :=
  root.alter (List.filter fun entry => entry.1 != scratch.name) scratch.dir

/-- Makes an empty file in the directory at a path, which only its owner may read. -/
def make (dir : String) (root : Node) : Except OsError (Scratch × Node) :=
  match root.directoryAt? dir with
  | some (place, es) =>
    let scratch : Scratch := ⟨place, freshName es⟩
    .ok (scratch, scratch.put (file 0o600 (.text "")) root)
  | none => .error .notFound

/-- Renames the new file to a path. -/
def moveTo (scratch : Scratch) (path : String) (root : Node) : Except OsError Node :=
  let rest := scratch.drop root
  (rest.renameTarget path).map fun place =>
    rest.put ((scratch.get? root).getD (directory [])) place

end Scratch

/-! ## The replacement -/

/-- A computation on a tree that may fail; what it did to the tree before it failed stays done. -/
abbrev Filing : Type → Type := ExceptT ReplaceError (StateM Node)

/-- Carries out a step of a replacement unless it is refused. -/
def attempt {α : Type} (refuses : Refusals) (step : Step) (tell : OsError → ReplaceError)
    (act : Node → Except OsError (α × Node)) : Filing α := do
  match refuses.outcome step tell (act (← get)) with
  | .error e => throw e
  | .ok (a, after) =>
    set after
    return a

/-- Gives the text and the permission bits to a new file and renames it to a path. -/
def Scratch.persist (scratch : Scratch) (refuses : Refusals) (path text : String) (mode : Nat) :
    Filing Unit := do
  attempt refuses .write .fill fun root =>
    .ok ((), scratch.put (.file 0o600 (.text text)) root)
  attempt refuses .sync .fill fun root => .ok ((), root)
  attempt refuses .setMode .fill fun root => .ok ((), scratch.put (.file mode (.text text)) root)
  attempt refuses .rename (.rename path) fun root => (scratch.moveTo path root).map ((), ·)

/-- Exchanges the whole file at `path` for a text, under the same permission bits. -/
def replace (refuses : Refusals) (path text : String) : Filing Unit := do
  let old ← attempt refuses .stat (.stat path) fun root => (root.stat path).map (·, root)
  let scratch ← attempt refuses .create (.create (directoryOf path))
    (Scratch.make (directoryOf path))
  tryCatch (scratch.persist refuses path text old.mode) fun e => do
    modify scratch.drop
    throw e

/-- The tree with the whole file at `path` exchanged for a text, under the same permission bits. -/
def Node.replaceText (root : Node) (path text : String) (refuses : Refusals := .none) :
    Except ReplaceError Node :=
  let (outcome, after) := (replace refuses path text).run root
  outcome.map fun () => after

end PinnedImports.Storage
