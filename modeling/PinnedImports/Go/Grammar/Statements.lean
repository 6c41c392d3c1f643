import PinnedImports.Go.Grammar.Declarations

/-!
# Statements

The rules for statements and blocks, and the knot that ties all rules together (`rules`).

Behind the header of an `if`, `for` or `switch` statement a brace opens the body. Where a type name
of several parts stands before it, the brace could also open a composite literal; the header is
then read both ways and the first one that leads to a complete statement is meant.
-/

set_option autoImplicit false

namespace PinnedImports.Go.Grammar

open PinnedImports.Go.Parser

/-- Whether a list of statements ends before the given characters. -/
def endsList (inCase : Bool) (cs : List Char) : Bool :=
  cs.head?.all (· == '}') ||
    (inCase && (word? cs == some "case" || word? cs == some "default"))

/-- Whether a statement may end before the given characters. -/
def endsStatement (inCase : Bool) (cs : List Char) : Bool :=
  cs.head?.any isTerminator || endsList inCase cs

/-- What a simple statement is to the header it stands in. -/
inductive Simple where
  | expression
  /-- the guard of a type switch -/
  | guard
  | statement
deriving DecidableEq

/-- Passes the dot, the parentheses and the keyword of the guard of a type switch. -/
def passGuard : Parser Unit := do
  symbol "."
  symbol "("
  keyword "type"
  symbol ")"

/-- What is assigned behind the operator of an assignment or a definition. -/
def assigned (rules : Rules) (values : Context) (lefts : List Tree) :
    Parser (Simple × List Tree) := do
  let first ← expression rules values
  if values.guardFollows && guardAhead (← ahead values.newlineEnds) then
    passGuard
    return (.guard, lefts ++ [first])
  let others ← many do
    require (← isAhead values.newlineEnds ",")
    symbol ","
    expression rules values.inner
  return (.statement, lefts ++ first :: others)

/-- A simple statement; `first` surrounds the first expression and `values` those that are
assigned. -/
def simpleStatement (rules : Rules) (first values : Context) : Parser (Simple × List Tree) := do
  let head ← expression rules first
  let cs ← ahead first.newlineEnds
  if first.guardFollows && guardAhead cs then
    passGuard
    return (.guard, [head])
  let listAhead := cs.head? = some ','
  let others ←
    if listAhead then many (symbol "," *> expression rules .assigned) else pure []
  -- A list has to be assigned to, so a newline behind it does not end the statement.
  let cs ← ahead (first.newlineEnds && !listAhead)
  if ":=".toList.isPrefixOf cs then
    symbol ":="
    assigned rules values (head :: others)
  else if let some operator := operator? assignmentOperators cs then
    let _ ← lexeme (.exactly operator)
    assigned rules values.inner (head :: others)
  else
    require !listAhead
    if "++".toList.isPrefixOf cs then
      symbol "++"
      return (.statement, [head])
    if "--".toList.isPrefixOf cs then
      symbol "--"
      return (.statement, [head])
    if "<-".toList.isPrefixOf cs then
      symbol "<-"
      return (.statement, [head, ← expression rules values.inner])
    return (.expression, [head])

/-- A simple statement in a header. -/
def headerStatement (rules : Rules) (literals : Bool) : Parser (Simple × List Tree) :=
  simpleStatement rules (.header literals .statement) .bracketed

/-- The header of an `if` statement. -/
def ifHeader (rules : Rules) (literals : Bool) : Parser (List Tree) := do
  let (simple, trees) ← headerStatement rules literals
  if ← isAhead false ";" then
    symbol ";"
    return trees ++ [← expression rules (.header literals .value)]
  require (simple = .expression)
  return trees

/-- The range clause of a `for` statement. -/
def rangeClause (rules : Rules) (literals : Bool) : Parser (List Tree) := do
  let lefts ←
    if word? (← ahead false) == some "range" then pure []
    else do
      let first ← expression rules (.header literals .statement)
      let others ← many (symbol "," *> expression rules .assigned)
      symbol ":=" <|> symbol "="
      pure (first :: others)
  keyword "range"
  return lefts ++ [← expression rules (.header literals .value)]

/-- The clause of a `for` statement with two semicolons, or a condition alone. -/
def forClause (rules : Rules) (literals : Bool) : Parser (List Tree) := do
  let (simple, first) ←
    if ← isAhead false ";" then pure (.statement, []) else headerStatement rules literals
  -- A header without semicolons is the condition alone.
  if simple = .expression && !(← isAhead false ";") then return first
  symbol ";"
  let condition ←
    if ← isAhead false ";" then pure [] else (do return [← expression rules .bracketed])
  symbol ";"
  let update ←
    if ← isAhead false openBrace then pure []
    else (·.2) <$> simpleStatement rules (.header literals .statement) (.header literals .value)
  return first ++ condition ++ update

/-- The header of a `for` statement. -/
def forHeader (rules : Rules) (literals : Bool) : Parser (List Tree) := do
  if ← isAhead false openBrace then return []
  if word? (← ahead false) == some "range" then rangeClause rules literals
  else rangeClause rules literals <|> forClause rules literals

/-- The header of a `switch` statement, and whether it ends with a guard. -/
def switchHeader (rules : Rules) (literals : Bool) : Parser (Bool × List Tree) := do
  let part := simpleStatement rules { Context.header literals .statement with guardFollows := true }
    { Context.bracketed with guardFollows := true }
  if ← isAhead false openBrace then return (false, [])
  let (simple, trees) ← part
  if simple = .guard then return (true, trees)
  if ← isAhead false ";" then
    symbol ";"
    if ← isAhead false openBrace then return (false, trees)
    let (simple, more) ← part
    -- Behind the semicolon stands the value or the guard itself.
    require (simple ≠ .statement)
    return (simple = .guard, trees ++ more)
  require (simple = .expression)
  return (false, trees)

/-- Reads a header and goes on: without composite literals of type names of several parts, and with
them where the statement then comes out otherwise. -/
def headed {α : Type} (header : Bool → Parser α) (next : α → Parser (List Tree)) :
    Parser (List Tree) :=
  firstThatLeads (header false) (header true) next

/-- Requires that the statement may end here. -/
def requireEnd (inCase : Bool) : Parser Unit := do
  require (endsStatement inCase (← ahead true))

/-- The label of a statement with its colon. -/
def label : Parser Tree := do
  let word := word? (← ahead false)
  require (["func", "struct", "interface", "map", "chan", "new", "make", "nil", "true", "false",
    "iota"].all fun keyword => word != some keyword)
  let labelName ← name
  let cs ← ahead true
  require (cs.head? = some ':' && !(":=".toList.isPrefixOf cs))
  symbol ":"
  return labelName

/-- Statements with terminators between them and perhaps behind them, at most `n`. A label without a
statement may stand last. -/
def statementsUpTo (rules : Rules) (inCase : Bool) : Nat → Parser (List Tree)
  | 0 => pure []
  | n + 1 => do
    if endsList inCase (← ahead false) then return []
    -- A label before the end of the list labels nothing.
    let lastLabel : Parser (List Tree) := do
      let tree ← label
      require (endsList inCase (← ahead false))
      return [tree]
    lastLabel <|> do
      let tree ← rules (.statement inCase)
      match ← Parser.optional terminator with
      | none => return [tree]
      | some () => return tree :: (← statementsUpTo rules inCase n)

/-- Statements with terminators between them and perhaps behind them. -/
def statements (rules : Rules) (inCase : Bool) : Parser (List Tree) := do
  statementsUpTo rules inCase ((← look List.length) + 1)

/-- Statements in braces. -/
def block (rules : Rules) : Parser Tree := noded .block do
  symbol openBrace
  let trees ← statements rules false
  symbol closeBrace
  return trees

/-- A colon and the statements of a case. -/
def caseBody (rules : Rules) : Parser (List Tree) := do
  symbol ":"
  statements rules true

/-- The cases of a switch or select statement in braces, each default or as given. -/
def cases (rules : Rules) (case : Parser Tree) : Parser (List Tree) := do
  let default : Parser Tree := noded .statement do
    keyword "default"
    caseBody rules
  symbol openBrace
  let trees ← many (case <|> default)
  symbol closeBrace
  return trees

/-- A case of an expression switch. -/
def expressionCase (rules : Rules) : Parser Tree := noded .statement do
  keyword "case"
  let values ← expressions rules .bracketed
  return values ++ (← caseBody rules)

/-- A case of a type switch. -/
def typeCase (rules : Rules) : Parser Tree := noded .typeCase do
  keyword "case"
  let types ← noded .typeList (listedLoosely (rules (.type false)))
  return types :: (← caseBody rules)

/-- A case of a select statement: a value sent, or one received and perhaps assigned. -/
def communicationCase (rules : Rules) : Parser Tree := noded .statement do
  keyword "case"
  let first ← expression rules { Context.bracketed with follow := .communication }
  let others ← many (symbol "," *> expression rules .assigned)
  -- The longer forms come first: a lone value is also the start of the two others.
  let received : Parser (List Tree) := do
    symbol ":=" <|> symbol "="
    return first :: others ++ [← expression rules .bracketed]
  let sent : Parser (List Tree) := do
    require others.isEmpty
    symbol "<-"
    return [first, ← expression rules .bracketed]
  let alone : Parser (List Tree) := do
    require others.isEmpty
    return [first]
  let values ← received <|> sent <|> alone
  return values ++ (← caseBody rules)

/-- A name on the same line, where the statement goes on. -/
def targetLabel (inCase : Bool) : Parser (List Tree) := do
  let cs ← ahead true
  if endsStatement inCase cs then return []
  return [← name]

/-- A statement that starts with a keyword. -/
def keywordStatement (rules : Rules) (inCase : Bool) (word : String) : Option (Parser Tree) :=
  let rule (body : Parser (List Tree)) : Option (Parser Tree) :=
    some (noded .statement (keyword word *> body))
  match word with
  | "const" => some (declaration word (constantSpec rules))
  | "var" => some (declaration word (variableSpec rules))
  | "type" => some (declaration word (typeSpec rules))
  | "return" => rule do
    if endsStatement inCase (← ahead true) then return []
    expressions rules .line
  | "go" | "defer" => rule do return [← expression rules .line]
  | "if" => rule do
    headed (ifHeader rules) fun trees => do
      let body ← rules .block
      let other ←
        -- A newline ends the statement, so `else` has to stand on the line of the brace.
        if word? (← ahead true) == some "else" then
          keyword "else"
          if ← isAhead false openBrace then pure [← rules .block]
          else
            require (word? (← ahead false) == some "if")
            pure [← rules (.statement inCase)]
        else pure []
      requireEnd inCase
      return trees ++ body :: other
  | "for" => rule do
    headed (forHeader rules) fun trees => do
      let body ← rules .block
      requireEnd inCase
      return trees ++ [body]
  | "switch" => rule do
    headed (switchHeader rules) fun (guarded, trees) => do
      let body ← cases rules (if guarded then typeCase rules else expressionCase rules)
      requireEnd inCase
      return trees ++ body
  | "select" => rule (cases rules (communicationCase rules))
  | "fallthrough" => rule (pure [])
  | "break" | "continue" => rule (targetLabel inCase)
  | "goto" => rule do return [← name]
  | _ => none

/-- The rule for statements. -/
def statement (rules : Rules) (inCase : Bool) : Parser Tree := do
  let cs ← ahead false
  match cs with
  | '{' :: _ => rules .block
  | ';' :: _ => noded .statement do
    symbol ";"
    return []
  | _ =>
    match (word? cs).bind (keywordStatement rules inCase) with
    | some rule => rule
    | none =>
      -- A label is read first, because its name is also an expression.
      let labeled := noded .statement do
        let tree ← label
        return [tree, ← rules (.statement inCase)]
      labeled <|> noded .statement do
        let (_, trees) ← simpleStatement rules .opening .line
        return trees

/-- The rule of every goal, over rules for the parts. -/
def step (rules : Rules) : Rules
  | .type newlineEnds => type rules newlineEnds
  | .operand ctx => operand rules ctx
  | .unary ctx behindStar => unary rules ctx behindStar
  | .literalBody => literalBody rules
  | .block => block rules
  | .statement inCase => statement rules inCase

end PinnedImports.Go.Grammar

namespace PinnedImports.Go

/-- The order in which goals at one place ask for each other: only for goals of a lower rank. -/
def Goal.rank : Goal → Nat
  | .type _ | .literalBody | .block => 0
  | .unary _ _ => 1
  | .operand _ => 2
  | .statement _ => 3

/-- The weight of a goal at a cursor. A part that is asked for stands further on or has a lower
rank, so it weighs less. -/
def Goal.weight (goal : Goal) (c : Cursor) : Nat := 4 * c.left + goal.rank

/-- The rules for whatever weighs less than a goal at a cursor. -/
def Rules.below (rules : Rules) (goal : Goal) (c : Cursor) : Rules := fun part d =>
  if part.weight d < goal.weight c then rules part d else none

namespace Grammar

/-- The rules with parts nested at most `n` deep. -/
def rulesWithin : Nat → Rules
  | 0 => fun _ _ => none
  | n + 1 => fun goal c => step ((rulesWithin n).below goal c) goal c

/-- All rules tied together. -/
def rules : Rules := fun goal c => rulesWithin (goal.weight c + 1) goal c

end Grammar

end PinnedImports.Go
