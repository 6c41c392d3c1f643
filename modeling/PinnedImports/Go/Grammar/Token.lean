import PinnedImports.Go.Cursor
import PinnedImports.Go.Lexeme
import PinnedImports.Go.Tree

/-!
# Tokens and the goals of the grammar

Blanks and comments are passed only in front of a token, so a parser that stops stands right behind
its last token. A newline ends a statement or declaration only where one may end; the parsers that
look for more of a construct say with `newlineEnds` whether this is such a place.

The rules of the grammar refer to each other through a parser for every `Goal` (`Rules`); tying
them together is left to the module that has all of them.
-/

set_option autoImplicit false

namespace PinnedImports.Go

/-- Which operators may follow an operand beside the binary ones; the longest one is meant. -/
inductive Follow where
  /-- none -/
  | value
  /-- those of an assignment -/
  | listed
  /-- those of a statement -/
  | statement
  /-- those of a communication in a select statement -/
  | communication

/-- The operators that may follow an operand. -/
def Follow.operators : Follow → List (List Char)
  | .value => binaryOperators
  | .listed => binaryOperators ++ assignmentOperators
  | .statement => binaryOperators ++ assignmentOperators ++ ["++", "--", "<-"].map String.toList
  | .communication => binaryOperators ++ ["=", "<-"].map String.toList

/-- The binary operator at the front, unless a longer operator that may follow is meant. -/
def Follow.binaryOperator? (follow : Follow) (cs : List Char) : Option (List Char) :=
  (operator? follow.operators cs).filter (binaryOperators.contains ·)

/-- What surrounds an expression. -/
structure Context where
  /-- A newline ends the expression. -/
  newlineEnds : Bool
  /-- A block may follow, so that a brace need not open a literal. -/
  blockFollows : Bool
  /-- A brace behind a type name of several parts opens a literal even where a block may follow. -/
  literals : Bool
  /-- The guard of a type switch may follow. -/
  guardFollows : Bool
  follow : Follow

/-- The context between brackets. -/
def Context.bracketed : Context := ⟨false, false, false, false, .value⟩

/-- The context of a value that a newline may end. -/
def Context.line : Context := ⟨true, false, false, false, .value⟩

/-- The context of the first expression of a statement. -/
def Context.opening : Context := { Context.line with follow := .statement }

/-- The context of an expression of a list that an assignment follows. -/
def Context.assigned : Context := { Context.bracketed with follow := .listed }

/-- The context of an expression in a header, with the body of the statement behind. -/
def Context.header (literals : Bool) (follow : Follow) : Context :=
  ⟨false, true, literals, false, follow⟩

/-- The context of a part that no guard may follow. -/
def Context.inner (ctx : Context) : Context := { ctx with guardFollows := false }

/-- What the rules of the grammar ask of each other. -/
inductive Goal where
  | type (newlineEnds : Bool)
  /-- an expression, or a type where one may stand for an expression -/
  | operand (ctx : Context)
  /-- the same without binary operators; behind a star a mere type is not gone on with -/
  | unary (ctx : Context) (behindStar : Bool)
  /-- the braces of a composite literal -/
  | literalBody
  | block
  /-- a statement, in the body of a case or elsewhere -/
  | statement (inCase : Bool)

/-- A parser for every goal. -/
abbrev Rules : Type := Goal → Parser Tree

namespace Parser

variable {α : Type}

/-- Passes blanks and comments; tells whether there was a comment. -/
def gap (newlineEnds : Bool) : Parser Bool :=
  (·.contains '/') <$> pass (fun cs => some (gapLength newlineEnds .between cs))

/-- The characters from the next token on, none passed. -/
def ahead (newlineEnds : Bool) : Parser (List Char) := look (afterGap newlineEnds)

/-- Passes a lexeme and the blanks and comments before it. -/
def lexeme (measure : Measure) : Parser (List Char) := do
  let _ ← gap false
  pass measure

/-- Passes a given token. -/
def symbol (text : String) : Parser Unit := do
  let _ ← lexeme (.exactly text.toList)

/-- Goes on if the condition holds. -/
def require (condition : Bool) : Parser Unit := if condition then pure () else failure

/-- The brace that opens a body. -/
def openBrace : String := "\x7b"

/-- The brace that closes a body. -/
def closeBrace : String := "\x7d"

/-- Whether the given characters come next. -/
def isAhead (newlineEnds : Bool) (text : String) : Parser Bool :=
  text.toList.isPrefixOf <$> ahead newlineEnds

/-- Passes the given word. -/
def keyword (text : String) : Parser Unit := do
  let word ← lexeme wordLength
  require (String.ofList word == text)

/-- Passes the end of a statement, a declaration or a part of a list of lines. -/
def terminator : Parser Unit := do
  let _ ← gap true
  let _ ← pass (Measure.one isTerminator)

/-- A node with the range of what the body passes. -/
def spanned (body : Parser (Kind × List Tree)) : Parser Tree := do
  let _ ← gap false
  let start ← left
  let (kind, children) ← body
  return .node kind start (← left) children

/-- A node of the given kind. -/
def noded (kind : Kind) (body : Parser (List Tree)) : Parser Tree :=
  spanned ((kind, ·) <$> body)

/-- An identifier. -/
def name : Parser Tree := noded .name do
  let _ ← lexeme wordLength
  return []

/-- A string literal. -/
def stringLiteral : Parser Tree := noded .literal do
  let _ ← lexeme stringLength
  return []

/-- One or more items with commas between them. -/
def listed (newlineEnds : Bool) (item : Parser α) : Parser (List α) := do
  let first ← item
  let others ← many do
    require (← isAhead newlineEnds ",")
    symbol ","
    item
  return first :: others

/-- One or more items with commas between them and perhaps behind them. -/
def listedLoosely (item : Parser α) : Parser (List α) := do
  let items ← listed false item
  let _ ← optional (symbol ",")
  return items

/-- Items with commas between them and perhaps behind them; a comma may stand alone. -/
def listedOrComma (item : Parser α) : Parser (List α) :=
  listedLoosely item <|> (do
    let _ ← optional (symbol ",")
    return [])

/-- Items with terminators between them and perhaps behind the last one, or none at all. -/
def terminated (item : Parser α) : Parser (List α) :=
  (do
    let first ← item
    let others ← many (terminator *> item)
    let _ ← optional terminator
    return first :: others) <|> pure []

/-- Items in braces with terminators between them and perhaps behind the last one. -/
def braced (item : Parser α) : Parser (List α) := do
  symbol openBrace
  let items ← terminated item
  symbol closeBrace
  return items

end Parser

end PinnedImports.Go
