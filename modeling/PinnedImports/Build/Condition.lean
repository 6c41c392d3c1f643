import PinnedImports.Text.Alphanumeric

/-!
# Conditions of `//go:build` lines

A condition combines tags by `!`, `&&`, `||` and parentheses. `Condition.parse?` reads one: negation
binds tighter than conjunction, conjunction tighter than disjunction, and both associate to the
left. Every token of the line has to be used.
-/

set_option autoImplicit false

namespace PinnedImports.Build

/-- A condition on build tags. -/
inductive Condition where
  | tag (name : String)
  | not (c : Condition)
  | and (a b : Condition)
  | or (a b : Condition)
  deriving Repr, DecidableEq

/-- The tokens of a condition. -/
inductive Token where
  | tag (name : String)
  | not
  | and
  | or
  | openParen
  | closeParen
  deriving Repr, DecidableEq

/-- The characters of tags. -/
def isTagChar (c : Char) : Bool := Text.isAlphanumeric c || c == '_' || c == '.'

namespace Token

/-- The first token and the rest; `none` where no token stands. Blanks and tabs before it are
skipped by `scan`. -/
def next? : List Char → Option (Token × List Char)
  | '!' :: rest => some (.not, rest)
  | '(' :: rest => some (.openParen, rest)
  | ')' :: rest => some (.closeParen, rest)
  | '&' :: '&' :: rest => some (.and, rest)
  | '|' :: '|' :: rest => some (.or, rest)
  | cs =>
    match cs.takeWhile isTagChar with
    | [] => none
    | name => some (.tag (String.ofList name), cs.dropWhile isTagChar)

/-- All tokens of a line; the first argument bounds their number. -/
def scanWithin : Nat → List Char → Option (List Token)
  | _, [] => some []
  | 0, _ => none
  | n + 1, c :: rest =>
    if c = ' ' ∨ c = '\t' then scanWithin n rest
    else
      match next? (c :: rest) with
      | some (token, rest) => (scanWithin n rest).map (token :: ·)
      | none => none

/-- All tokens of a line; `none` where a character belongs to no token. -/
def scan (cs : List Char) : Option (List Token) := scanWithin cs.length cs

end Token

namespace Condition

/-- Reads a condition off the front of a token list. -/
abbrev Reader := List Token → Option (Condition × List Token)

/-- After `left`, any number of further operands, each behind the operator, associated to the left.
The first argument bounds their number. -/
def chainFrom (operand : Reader) (operator : Token) (build : Condition → Condition → Condition) :
    Nat → Condition → Reader
  | 0, left, tokens => some (left, tokens)
  | n + 1, left, tokens =>
    match tokens with
    | [] => some (left, [])
    | token :: rest =>
      if token = operator then
        -- Behind the operator an operand has to follow.
        match operand rest with
        | some (right, rest) => chainFrom operand operator build n (build left right) rest
        | none => none
      else some (left, token :: rest)

/-- One operand or more, separated by the operator. -/
def chain (operand : Reader) (operator : Token) (build : Condition → Condition → Condition) :
    Reader := fun tokens =>
  match operand tokens with
  | some (left, rest) => chainFrom operand operator build rest.length left rest
  | none => none

/-- Conjunctions of operands, separated by `||`. -/
def disjunction (operand : Reader) : Reader := chain (chain operand .and .and) .or .or

/-- A tag, a negation or a parenthesised condition; the first argument bounds the nesting. -/
def operand : Nat → Reader
  | 0, _ => none
  | n + 1, tokens =>
    match tokens with
    | .not :: rest => (operand n rest).map fun (c, rest) => (.not c, rest)
    | .openParen :: rest =>
      match disjunction (operand n) rest with
      | some (c, .closeParen :: rest) => some (c, rest)
      | _ => none
    | .tag name :: rest => some (.tag name, rest)
    | _ => none

/-- The condition that all the tokens together spell. -/
def ofTokens? (tokens : List Token) : Option Condition :=
  match disjunction (operand (tokens.length + 1)) tokens with
  | some (c, []) => some c
  | _ => none

/-- The condition that a text spells. -/
def parse? (cs : List Char) : Option Condition := (Token.scan cs).bind ofTokens?

/-- The truth of a condition when `holds` decides tags. -/
def eval (holds : String → Bool) : Condition → Bool
  | tag name => holds name
  | not c => !c.eval holds
  | and a b => a.eval holds && b.eval holds
  | or a b => a.eval holds || b.eval holds

end Condition

end PinnedImports.Build
