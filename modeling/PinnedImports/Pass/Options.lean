/-!
# Options of a pass

Libraries must not be pinned to unpublished revisions, so a pass has to know whether a package is
one. `LibraryMode` settles that for each package.
-/

set_option autoImplicit false

namespace PinnedImports.Pass

/-- Which packages are libraries. -/
inductive LibraryMode where
  /-- Every package but `main`. -/
  | auto
  | on
  | off
deriving DecidableEq

namespace LibraryMode

/-- Whether a package is treated as a library. -/
def appliesTo (mode : LibraryMode) (package : String) : Bool :=
  match mode with
  | auto => package != "main"
  | on => true
  | off => false

/-- The mode that a word stands for, whatever the case of its letters. -/
def parse? (word : String) : Option LibraryMode :=
  let lower := String.ofList (word.toList.map Char.toLower)
  if lower = "auto" then some auto
  else if ["1", "t", "true", "y", "yes"].contains lower then some on
  else if ["0", "f", "false", "n", "no"].contains lower then some off
  else none

/-- What is told of a word that stands for no mode. -/
def refusal (word : String) : String :=
  "Invalid library mode '" ++ word ++ "', expected auto, true or false"

end LibraryMode

/-- The options of a pass. -/
structure Options where
  /-- Ask before the imports of each repository change. -/
  interactive : Bool := false
  /-- Pin applications to revisions even where a version is published. -/
  preferRevisions : Bool := false
  library : LibraryMode := .auto
  /-- Only tell what would change. -/
  dryRun : Bool := false
  verbose : Bool := false
deriving DecidableEq

end PinnedImports.Pass
