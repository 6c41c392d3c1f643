import PinnedImports.Command.Execution
import PinnedImports.Storage.Changes

/-!
# The program

The files below the working directory are read, the command line is executed on them, and what has
changed is written back. This build reaches neither the network nor other programs: the registry
does not reply, there is no go command and no terminal.
-/

set_option autoImplicit false

namespace PinnedImports.Program

open Storage

/-- The target of a link `depth` directories below `root`, as seen from the directory of the link. What
lies outside of `root` keeps its absolute path. -/
def relativeTarget (root : String) (depth : Nat) (target : String) : String :=
  match Text.after? (root ++ "/").toList target.toList with
  | some below => String.join (List.replicate depth "../") ++ String.ofList below
  | none => target

/-- The entries of a directory `depth` levels below `root`, other than devices and the like. A link
stands for what it leads to in the end, and one that leads nowhere for an absolute path, which no lookup
follows. Permission bits cannot be asked for here, so all files have those of a common text file; when a
file is written back, its own bits stay. -/
partial def readEntries (root : String) (depth : Nat) (entries : Array IO.FS.DirEntry) :
    IO (List (String × Node)) := do
  let mut found : Dictionary Node := ∅
  for entry in entries do
    match (← entry.path.symlinkMetadata).type with
    | .dir =>
      let below ← readEntries root (depth + 1) (← entry.path.readDir)
      found := found.insert entry.fileName (.directory below)
    | .file =>
      let data ← IO.FS.readBinFile entry.path
      let content := match String.fromUTF8? data with
        | some text => .text text
        | none => .bytes data.toList
      found := found.insert entry.fileName (.file 0o644 content)
    | .symlink =>
      let target ← try pure (← IO.FS.realPath entry.path).toString catch _ => pure "/"
      found := found.insert entry.fileName (.link (relativeTarget root depth target))
    | .other => pure ()
  return found.entries

/-- Writes a change to the disk. -/
def writeChange (path : String) : Change → IO Unit
  | .content (.text text) | .mode _ (.text text) => IO.FS.writeFile path text
  | .content (.bytes data) | .mode _ (.bytes data) => IO.FS.writeBinFile path ⟨data.toArray⟩
  | .removed => IO.FS.removeFile path

/-- A machine without network, programs and terminal. -/
def machine : Command.Machine Unit where
  post _ _ world := (.lost "no network", world)
  go _ world := (.unavailable, world)
  terminal _ := none
  withTerminal _ world := world

end PinnedImports.Program

open PinnedImports in
def main (arguments : List String) : IO UInt32 := do
  let here ← IO.FS.realPath "."
  let files := Storage.Node.directory
    (← Program.readEntries here.toString 0 (← here.readDir))
  let environment : Command.Environment :=
    ⟨← IO.getEnv "GOPKGS_API_HOST", ← IO.getEnv "GOPATH", ← IO.getEnv "HOME",
      ← IO.getEnv "CLICOLOR_FORCE"⟩
  let (code, session) := Command.execute Program.machine environment arguments
    { files := files, world := () }
  for (path, change) in files.changes session.files do
    -- A link is replaced itself, so it must not be followed when the new file is written.
    if (← (here / path).symlinkMetadata).type == .symlink then IO.FS.removeFile path
    Program.writeChange path change
  IO.print session.transcript.out
  IO.eprint session.transcript.err
  return code.toUInt32
