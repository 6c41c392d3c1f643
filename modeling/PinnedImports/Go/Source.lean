import PinnedImports.Go.Grammar.Statements
import PinnedImports.Go.Literal

/-!
# Source files

A source file is read as its package name, its import specifications with their places, and the
syntax trees of everything else. Package clauses, imports and statements may stand in any order; the
last package clause counts. Each of them ends with a newline or a semicolon, and a package clause,
an import or a function may also end with the file.
-/

set_option autoImplicit false

namespace PinnedImports.Go

/-- A range of bytes. -/
structure Span where
  start : Nat
  stop : Nat
deriving DecidableEq

/-- The range whose ends are counted from the end of a text of `size` bytes, or the other way
round. -/
def Span.turned (size : Nat) (span : Span) : Span := ⟨size - span.start, size - span.stop⟩

/-- The characters of a text in a range of bytes. -/
def Span.textIn (span : Span) (text : List Char) : List Char :=
  Text.slice span.start span.stop text

/-- An import specification of a source file. -/
structure Import where
  /-- the name written before the path -/
  name : Option String
  path : String
  /-- the place of the string literal -/
  literal : Span
  /-- the place of the specification, its name included -/
  spec : Span
  /-- the number of the parentheses around it, counted through the file -/
  block : Option Nat
deriving DecidableEq

/-- An import specification as it is written: a name and a string literal. Its places are counted
from the end of the text. -/
structure ImportSpec where
  name : Option String
  text : String
  literal : Span
  spec : Span

/-- A part of a source file, with places counted from the end of the text. -/
inductive Item where
  | package (name : String)
  | imported (spec : ImportSpec)
  | importedBlock (specs : List ImportSpec)
  | code (tree : Tree)

/-- A source file without its text. -/
structure Source where
  package : String
  imports : List Import
  /-- the declarations and statements -/
  code : List Tree

namespace Grammar

open PinnedImports.Go.Parser

/-- A package clause. -/
def packageClause : Parser Item := do
  keyword "package"
  return .package (String.ofList (← lexeme wordLength))

/-- The name before an import path: a dot or an identifier. -/
def importName : Parser (List Char) := lexeme (.longest [.exactly ['.'], wordLength])

/-- An import specification. -/
def importSpec : Parser ImportSpec := do
  let _ ← gap false
  let start ← left
  let name ← Parser.optional importName
  let _ ← gap false
  let literalStart ← left
  let text ← lexeme stringLength
  let stop ← left
  return ⟨name.map String.ofList, String.ofList text, ⟨literalStart, stop⟩, ⟨start, stop⟩⟩

/-- An import declaration. -/
def importDeclaration : Parser Item := do
  keyword "import"
  if ← isAhead false "(" then
    symbol "("
    let specs ← terminated importSpec
    symbol ")"
    return .importedBlock specs
  return .imported (← importSpec)

/-- Requires the end of the text. -/
def atEnd : Parser Unit := do require (← ahead false).isEmpty

/-- One item of a source file, with its end. -/
def item (rules : Rules) : Parser Item := do
  let closed (body : Parser Item) : Parser Item := body <* (terminator <|> atEnd)
  let code (body : Parser Tree) : Parser Item := .code <$> body
  let statement : Parser Item := code (rules (.statement false)) <* terminator
  match word? (← ahead false) with
  | some "package" => closed packageClause
  | some "import" => closed importDeclaration
  | some "func" =>
    -- A statement may start with a function literal, so that reading is left for last.
    closed (code (functionDeclaration rules)) <|> closed (code (methodDeclaration rules)) <|>
      statement
  | _ => statement

/-- The items of a text. A byte order mark at its front is passed. -/
def items : Parser (List Item) := do
  let _ ← Parser.optional (pass (Measure.exactly ['\uFEFF']))
  let found ← many (item rules)
  atEnd
  return found

end Grammar

/-- An import specification of a text of `size` bytes with its path, unless its literal is no import
path. -/
def ImportSpec.import? (size : Nat) (spec : ImportSpec) (block : Option Nat) : Option Import :=
  (unquote? spec.text).map fun path =>
    ⟨spec.name, path, spec.literal.turned size, spec.spec.turned size, block⟩

namespace Item

/-- The name of the last package clause; empty if there is none. -/
def lastPackage (items : List Item) : String :=
  items.foldl (fun last item => match item with
    | .package name => name
    | _ => last) ""

/-- The imports of the items of a text of `size` bytes, with parentheses numbered from `block`. -/
def imports (size : Nat) : Nat → List Item → List Import
  | _, [] => []
  | block, .imported spec :: rest => (spec.import? size none).toList ++ imports size block rest
  | block, .importedBlock specs :: rest =>
    specs.filterMap (·.import? size (some block)) ++ imports size (block + 1) rest
  | block, _ :: rest => imports size block rest

/-- The declarations and statements among the items of a text of `size` bytes. -/
def codeOf (size : Nat) (items : List Item) : List Tree :=
  items.filterMap fun
    | .code tree => some (tree.turned size)
    | _ => none

end Item

/-- The source file of a text; none if the text has a syntax error. -/
def Source.parse? (text : List Char) : Option Source :=
  let size := Text.byteLength text
  (Grammar.items.run? text).map fun items =>
    ⟨Item.lastPackage items, Item.imports size 0 items, Item.codeOf size items⟩

end PinnedImports.Go
