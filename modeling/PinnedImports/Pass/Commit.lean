import PinnedImports.Imports.Render
import PinnedImports.Imports.Substitution
import PinnedImports.Pass.Options
import PinnedImports.Pass.Session

/-!
# Committing the substitutions of a file

The paths that take the place of others are downloaded first, and a substitution whose path cannot
be downloaded is dropped. Then the file is written with the others. A dry run only tells what would
be substituted.
-/

set_option autoImplicit false

namespace PinnedImports.Pass

open Storage Session

/-- What happened to a file. -/
structure FileReport where
  file : String
  /-- The substitutions that are in force. -/
  substitutions : Dictionary String := ∅
  /-- The paths whose substitution was dropped. -/
  dropped : List String := []
  written : Bool := false
  /-- Why the file could not be written. -/
  error : Option String := none

/-- The table of substitutions under a heading. -/
def substitutionTable (palette : Text.Palette) (verb file : String) (subs : Dictionary String) :
    String :=
  palette.bold .yellow verb ++ " " ++ toString subs.size ++ " imports in " ++ file ++ ":\n" ++
    String.join (subs.entries.map fun (path, replacement) =>
      "\t" ++ palette.paint .red path ++ " => " ++ palette.paint .green replacement ++ "\n")

variable {σ : Type}

/-- The paths among the entries that cannot be downloaded; the operator is told of each. -/
def undownloadable (tools : Collaborators σ) :
    List (String × String) → StateM (Session σ) (List String)
  | [] => pure []
  | (path, replacement) :: rest => do
    match ← download tools replacement with
    | .fetched => undownloadable tools rest
    | .failed message =>
      notify tools
        [⟨.warn, downloadMessage replacement message ++ ", using original " ++ path⟩]
      return path :: (← undownloadable tools rest)

/-- Writes a file with its substituted paths. -/
def write (tools : Collaborators σ) (file : SourceFile) (subs : Dictionary String) :
    StateM (Session σ) (Except String Unit) := do
  let text := Imports.render file.text subs file.source.imports
  let refuses ← refusals tools file.path
  let s ← get
  let (outcome, files) := (replace refuses file.path text).run s.files
  set { s with files := files }
  match outcome with
  | .ok () => return .ok ()
  | .error cause =>
    notify tools
      [⟨.warn, "error rewriting file " ++ file.path ++ ": " ++ cause.message⟩]
    return .error cause.message

/-- Puts the substitutions of a file into force. -/
def commit (tools : Collaborators σ) (dryRun verbose : Bool) (file : SourceFile)
    (subs : Dictionary String) : StateM (Session σ) FileReport := do
  if subs.isEmpty then return { file := file.path }
  if dryRun then
    tell (.ofOut (substitutionTable tools.palette "would rewrite" file.path subs))
    return { file := file.path, substitutions := subs }
  let dropped ← undownloadable tools subs.entries
  let live := subs.filter fun path _ => !dropped.contains path
  if live.isEmpty then return { file := file.path, dropped := dropped }
  if verbose then tell (.ofOut (substitutionTable tools.palette "rewrite" file.path live))
  match ← write tools file live with
  | .ok () =>
    return { file := file.path, substitutions := live, dropped := dropped, written := true }
  | .error message =>
    return { file := file.path, substitutions := live, dropped := dropped, error := some message }

end PinnedImports.Pass
