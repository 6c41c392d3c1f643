import PinnedImports.Storage.Tree

/-!
# Changes between two trees

`Node.changes` lists the regular files in which two trees differ.
-/

set_option autoImplicit false

namespace PinnedImports.Storage

/-- What became of a regular file. -/
inductive Change where
  | content (content : Content)
  /-- other permission bits, whether or not the content is another one -/
  | mode (mode : Nat) (content : Content)
  | removed

namespace Node

/-- The regular files of a tree with their paths. -/
def regularFiles (root : Node) : List (String × Nat × Content) :=
  (walkEntries (fun _ _ => true) "" root.entries).filterMap fun (path, node) =>
    match node with
    | file mode content => some (path, mode, content)
    | _ => none

/-- What became of a file that had the mode and content `before`, if it differs. -/
def change? (before : Option (Nat × Content)) (mode : Nat) (content : Content) : Option Change :=
  match before with
  | none => some (.content content)
  | some (oldMode, oldContent) =>
    if oldMode ≠ mode then some (.mode mode content)
    else if oldContent ≠ content then some (.content content)
    else none

/-- The regular files in which the second tree differs from the first. -/
def changes (before after : Node) : List (String × Change) :=
  let old := before.regularFiles
  let new := after.regularFiles
  new.filterMap (fun (path, mode, content) =>
      (change? (old.lookup path) mode content).map (path, ·)) ++
    (old.filter fun file => (new.lookup file.1).isNone).map fun file => (file.1, .removed)

end Node

end PinnedImports.Storage
