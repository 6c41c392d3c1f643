import PinnedImports.Imports.Block

/-!
# Writing substitutions into a file

`render` gives the text of a source file with the new path in place of each substituted one. A
block in which a path changes is sorted where its lines allow that; everywhere else only the string
literals change.
-/

set_option autoImplicit false

namespace PinnedImports.Imports

open Text

/-- The edit of a specification's string literal, if its path is substituted. -/
def literalEdit? (subs : Dictionary String) (spec : Go.Import) : Option Edit :=
  (subs.get? spec.path).map fun path =>
    ⟨spec.literal.start, spec.literal.stop, (Go.quote path).toList⟩

/-- The edits of the specifications in one block. -/
def blockEdits (text : List Char) (subs : Dictionary String) (specs : List Go.Import) :
    List Edit :=
  match specLines? text specs with
  | some rows => (groups rows).filterMap (groupEdit? text subs)
  | none => specs.filterMap (literalEdit? subs)

/-- The numbers of the blocks in which a path is substituted, in increasing order. -/
def touchedBlocks (subs : Dictionary String) (imports : List Go.Import) : List Nat :=
  let touched := imports.filter fun spec => subs.contains spec.path
  (sortBy (· ≤ ·) (touched.filterMap (·.block))).eraseDups

/-- The edits that substitute paths in a file. -/
def edits (text : List Char) (subs : Dictionary String) (imports : List Go.Import) : List Edit :=
  let touched := touchedBlocks subs imports
  -- Outside of these blocks nothing moves.
  let single := imports.filter fun spec => !(spec.block.any touched.contains)
  single.filterMap (literalEdit? subs) ++
    touched.flatMap fun block =>
      blockEdits text subs (imports.filter fun spec => spec.block == some block)

/-- The text of a file with its substituted paths. -/
def render (text : String) (subs : Dictionary String) (imports : List Go.Import) : String :=
  String.ofList (applyEdits text.toList (edits text.toList subs imports))

end PinnedImports.Imports
