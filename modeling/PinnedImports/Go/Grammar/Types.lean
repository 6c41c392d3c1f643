import PinnedImports.Go.Grammar.Token

/-!
# Types

The rule for types, and what it shares with declarations: parameters, signatures and type
parameters.
-/

set_option autoImplicit false

namespace PinnedImports.Go.Grammar

open PinnedImports.Go.Parser

/-- A type or types with bars between them. -/
def typeElement (rules : Rules) (newlineEnds : Bool) : Parser Tree := do
  let first ← rules (.type newlineEnds)
  let others ← many do
    require (← isAhead newlineEnds "|")
    symbol "|"
    rules (.type newlineEnds)
  if others.isEmpty then return first
  return .node .alternation first.start (← left) (first :: others)

/-- Type arguments in brackets. -/
def typeArguments (rules : Rules) : Parser (List Tree) := do
  symbol "["
  let arguments ← listedLoosely (typeElement rules false)
  symbol "]"
  return arguments

/-- A type name, perhaps with its package and with type arguments. -/
def namedType (rules : Rules) (newlineEnds : Bool) : Parser Tree := do
  let first ← name
  let base ←
    if ← isAhead newlineEnds "." then
      symbol "."
      let second ← name
      pure (Tree.node .qualifiedType first.start second.stop [first, second])
    else pure first
  if ← isAhead newlineEnds "[" then
    let arguments ← typeArguments rules
    return .node .genericType base.start (← left) (base :: arguments)
  return base

/-- Whether a type that is no parameter list may start here. -/
def opensType (cs : List Char) : Bool :=
  match cs with
  | '<' :: '-' :: _ => true
  | c :: _ => c = '*' || c = '[' || c = '~' || Text.isIdentifierStart c
  | [] => false

/-- One entry of a parameter list: a type, a name and a type, or three dots and a type behind a name
or none. -/
def parameter (rules : Rules) : Parser (List Tree) :=
  let variadic : Parser (List Tree) := do
    symbol "..."
    return [← rules (.type false)]
  let typeOnly : Parser (List Tree) := do
    let type ← rules (.type false)
    -- A type name is a whole entry only if no type follows it; else it was the name of a parameter.
    require ((← isAhead false ",") || (← isAhead false ")"))
    return [type]
  let named : Parser (List Tree) := do
    let parameterName ← name
    let type ← variadic <|> (do return [← rules (.type false)])
    return parameterName :: type
  variadic <|> typeOnly <|> named

/-- A parameter list. -/
def parameters (rules : Rules) : Parser (List Tree) := do
  symbol "("
  let entries ← listedOrComma (parameter rules)
  symbol ")"
  return entries.flatten

/-- Parameters and results of a function. -/
def signature (rules : Rules) (newlineEnds : Bool) : Parser (List Tree) := do
  let inputs ← parameters rules
  let cs ← ahead newlineEnds
  let outputs ←
    if cs.head? = some '(' then parameters rules
    -- What looks like a type here may also be the next statement, so a failure is no result.
    else if opensType cs then (do return [← rules (.type newlineEnds)]) <|> pure []
    else pure []
  return inputs ++ outputs

/-- Type parameters in brackets: names with a constraint each. -/
def typeParameters (rules : Rules) : Parser (List Tree) := do
  symbol "["
  let groups ← listedLoosely do
    let names ← listed false name
    let bound ← typeElement rules false
    return names ++ [bound]
  symbol "]"
  return groups.flatten

/-- A field of a struct: an embedded type or names with a type, and perhaps a tag. -/
def field (rules : Rules) : Parser Tree := noded .declaration do
  let tag : Parser (List Tree) := do
    let cs ← ahead true
    if cs.head? = some '"' || cs.head? = some '`' then return [← stringLiteral]
    return []
  let embedded : Parser (List Tree) := do
    let _ ← Parser.optional (symbol "*")
    let type ← namedType rules true
    let tagged ← tag
    let cs ← ahead true
    -- An embedded type is a whole line; else the word was the first name of a list of fields.
    require (cs.head?.any fun c => isTerminator c || c == '}')
    return type :: tagged
  let named : Parser (List Tree) := do
    let names ← listed true name
    let type ← rules (.type true)
    return names ++ type :: (← tag)
  embedded <|> named

/-- An element of an interface: a method, or types with bars between them. -/
def interfaceElement (rules : Rules) : Parser Tree :=
  let method : Parser Tree := noded .declaration do
    let methodName ← name
    require (← isAhead true "(")
    return methodName :: (← signature rules true)
  method <|> typeElement rules true

/-- A type that starts with a keyword. -/
def keywordType (rules : Rules) (newlineEnds : Bool) (word : String) :
    Option (Parser (Kind × List Tree)) :=
  match word with
  | "struct" => some do
    keyword word
    return (.structType, ← braced (field rules))
  | "interface" => some do
    keyword word
    return (.interfaceType, ← braced (interfaceElement rules))
  | "map" => some do
    keyword word
    symbol "["
    let key ← rules (.type false)
    symbol "]"
    return (.mapType, [key, ← rules (.type newlineEnds)])
  | "chan" => some do
    keyword word
    let _ ← Parser.optional (symbol "<-")
    return (.channelType, [← rules (.type newlineEnds)])
  | "func" => some do
    keyword word
    return (.functionType, ← signature rules newlineEnds)
  | _ => none

/-- The rule for types. -/
def type (rules : Rules) (newlineEnds : Bool) : Parser Tree := do
  let cs ← ahead false
  match cs with
  | '*' :: _ => spanned do
    symbol "*"
    let commented ← gap false
    return (.pointerType commented, [← rules (.type newlineEnds)])
  | '(' :: _ => noded .parenthesizedType do
    symbol "("
    let inner ← rules (.type false)
    symbol ")"
    return [inner]
  | '[' :: _ => spanned do
    symbol "["
    if ← isAhead false "]" then
      symbol "]"
      return (.sliceType, [← rules (.type newlineEnds)])
    -- Anything else between the brackets is the length of an array.
    let length ← rules (.operand .bracketed)
    require length.isValue
    symbol "]"
    return (.arrayType, [length, ← rules (.type newlineEnds)])
  | '<' :: _ => noded .channelType do
    symbol "<-"
    keyword "chan"
    return [← rules (.type newlineEnds)]
  | '~' :: _ => noded .negatedType do
    symbol "~"
    return [← rules (.type newlineEnds)]
  | _ =>
    match (word? cs).bind (keywordType rules newlineEnds) with
    | some rule => spanned rule
    | none => namedType rules newlineEnds

end PinnedImports.Go.Grammar
