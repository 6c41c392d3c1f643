import PinnedImports.Go.Grammar.Expressions

/-!
# Declarations

Constants, variables, types and functions. In parentheses every specification has a terminator
behind it.
-/

set_option autoImplicit false

namespace PinnedImports.Go.Grammar

open PinnedImports.Go.Parser

/-- An equals sign and the values behind it. -/
def initialValues (rules : Rules) : Parser (List Tree) := do
  symbol "="
  expressions rules .line

/-- Names of constants, perhaps with values, which may have a type before them. -/
def constantSpec (rules : Rules) : Parser (List Tree) := do
  let names ← listed true name
  let cs ← ahead true
  if cs.head? = some '=' then return names ++ (← initialValues rules)
  if cs.head? = some '(' || opensType cs then
    let type ← rules (.type false)
    return names ++ type :: (← initialValues rules)
  return names

/-- Names of variables with a type, values or both. -/
def variableSpec (rules : Rules) : Parser (List Tree) := do
  let names ← listed false name
  if ← isAhead false "=" then return names ++ (← initialValues rules)
  let type ← rules (.type true)
  if ← isAhead true "=" then return names ++ type :: (← initialValues rules)
  return names ++ [type]

/-- A type name with its type, with an equals sign for an alias. Brackets behind the name are the
length of an array type where they can be, and else type parameters. -/
def typeSpec (rules : Rules) : Parser (List Tree) := do
  let typeName ← name
  let aliased : Parser (List Tree) := do
    symbol "="
    return [← rules (.type true)]
  let plain : Parser (List Tree) := do return [← rules (.type true)]
  let generic : Parser (List Tree) := do
    let bounds ← typeParameters rules
    return bounds ++ (← aliased <|> plain)
  -- The plain reading comes first, so `[n]T` behind the name is an array type if it can be.
  return typeName :: (← aliased <|> plain <|> generic)

/-- A declaration: the keyword and one specification, or any number of them in parentheses. -/
def declaration (word : String) (spec : Parser (List Tree)) : Parser Tree := noded .declaration do
  keyword word
  if ← isAhead false "(" then
    symbol "("
    let specs ← many (spec <* terminator)
    symbol ")"
    return specs.flatten
  spec

/-- The body of a function, where there is one. -/
def functionBody (rules : Rules) : Parser (List Tree) := do
  if ← isAhead true openBrace then return [← rules .block]
  return []

/-- The declaration of a function. -/
def functionDeclaration (rules : Rules) : Parser Tree := noded .declaration do
  keyword "func"
  let functionName ← name
  let bounds ← if ← isAhead false "[" then typeParameters rules else pure []
  let types ← signature rules true
  return functionName :: bounds ++ types ++ (← functionBody rules)

/-- The declaration of a method. -/
def methodDeclaration (rules : Rules) : Parser Tree := noded .declaration do
  keyword "func"
  let receiver ← parameters rules
  let methodName ← name
  let types ← signature rules true
  return receiver ++ methodName :: types ++ (← functionBody rules)

end PinnedImports.Go.Grammar
