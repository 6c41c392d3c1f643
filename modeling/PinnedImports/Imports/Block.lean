import PinnedImports.Dictionary
import PinnedImports.Go.Source
import PinnedImports.Text.Blank
import PinnedImports.Text.Edit

/-!
# Lines of an import block

In a block whose specifications stand on lines of their own, the specifications on adjacent lines
form a group. The `//` lines directly above a specification belong to it. A group with a
substitution is written anew: sorted by path and name, each specification with its comment, and
exact duplicates once.
-/

set_option autoImplicit false

namespace PinnedImports.Imports

open Text

/-- The start of the line that byte `n` is on. -/
def lineStart (text : List Char) (n : Nat) : Nat :=
  n - byteLength ((takeBytes n text).reverse.takeWhile (· != '\n'))

/-- The end of the line that byte `n` is on, before its newline. -/
def lineStop (text : List Char) (n : Nat) : Nat :=
  n + byteLength ((dropBytes n text).takeWhile (· != '\n'))

/-- Whether a line holds nothing but a line comment. -/
def isCommentLine (line : List Char) : Bool := ['/', '/'].isPrefixOf (trimStart line)

/-- The start of the run of comment lines that ends where the line at byte `start` begins. -/
def leadStart (text : List Char) (start : Nat) : Nat :=
  -- The last piece is empty: it is the start of the line itself.
  let above := (split (· == '\n') (takeBytes start text)).reverse.drop 1
  start - byteLength ((above.takeWhile isCommentLine).flatMap (· ++ ['\n']))

/-- The lines of a specification: the comment above it from `lead`, and its own line from `start` up
to `stop`. -/
structure SpecLine where
  lead : Nat
  start : Nat
  stop : Nat
deriving DecidableEq

/-- The lines of a specification, unless it shares its line with anything but a comment behind
it. -/
def specLine? (text : List Char) (spec : Go.Import) : Option SpecLine :=
  let start := lineStart text spec.spec.start
  let stop := lineStop text spec.spec.stop
  let after := trim (slice spec.spec.stop stop text)
  if allBlank (slice start spec.spec.start text) &&
      (after.isEmpty || ['/', '/'].isPrefixOf after) then
    some ⟨leadStart text start, start, stop⟩
  else none

/-- The specifications with their lines, unless one has none. -/
def specLines? (text : List Char) : List Go.Import → Option (List (Go.Import × SpecLine))
  | [] => some []
  | spec :: rest => do
    let line ← specLine? text spec
    let others ← specLines? text rest
    return (spec, line) :: others

/-- The runs of specifications whose lines follow each other. -/
def groups : List (Go.Import × SpecLine) → List (List (Go.Import × SpecLine))
  | [] => []
  | row :: rest =>
    match groups rest with
    | (next :: group) :: others =>
      -- Only the newline stands between the two.
      if row.2.stop + 1 = next.2.lead then (row :: next :: group) :: others
      else [row] :: (next :: group) :: others
    | others => [row] :: others

/-- A specification as it is written anew. -/
structure Entry where
  path : String
  name : Option String
  comment : List Char
  line : List Char

namespace Entry

/-- The entry of a specification, with its path substituted. -/
def ofSpec (text : List Char) (subs : Dictionary String) (row : Go.Import × SpecLine) : Entry :=
  let (spec, line) := row
  let comment := slice line.lead line.start text
  match subs.get? spec.path with
  | some path =>
    ⟨path, spec.name, comment,
      slice line.start spec.literal.start text ++ (Go.quote path).toList ++
        slice spec.literal.stop line.stop text⟩
  | none => ⟨spec.path, spec.name, comment, slice line.start line.stop text⟩

/-- The order of names, with the missing one first. -/
def nameLe : Option String → Option String → Bool
  | none, _ => true
  | some _, none => false
  | some a, some b => a ≤ b

/-- The order of entries: by path, then by name. -/
def le (a b : Entry) : Bool := a.path < b.path || (a.path == b.path && nameLe a.name b.name)

/-- Whether two entries import the same path under the same name. -/
def same (a b : Entry) : Bool := a.path == b.path && a.name == b.name

/-- The entries with each run of the same one joined: the first stays and takes the comments of the
others. -/
def joinSame : List Entry → List Entry
  | [] => []
  | entry :: rest => go entry rest
where
  /-- Joins `first` with the entries behind it. -/
  go (first : Entry) : List Entry → List Entry
    | [] => [first]
    | next :: rest =>
      if first.same next then go { first with comment := first.comment ++ next.comment } rest
      else first :: go next rest

end Entry

/-- The lines of a group written anew. -/
def groupText (text : List Char) (subs : Dictionary String) (group : List (Go.Import × SpecLine)) :
    List Char :=
  let entries := Entry.joinSame (sortBy Entry.le (group.map (Entry.ofSpec text subs)))
  ['\n'].intercalate (entries.map fun entry => entry.comment ++ entry.line)

/-- The edit that writes a group anew, if the group has a substitution. -/
def groupEdit? (text : List Char) (subs : Dictionary String)
    (group : List (Go.Import × SpecLine)) : Option Edit :=
  match group with
  | [] => none
  | first :: rest =>
    if (first :: rest).any fun row => subs.contains row.1.path then
      some ⟨first.2.lead, ((first :: rest).getLast (by simp)).2.stop,
        groupText text subs (first :: rest)⟩
    else none

end PinnedImports.Imports
