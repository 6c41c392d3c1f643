import PinnedImports.Go.Grammar.Types

/-!
# Expressions

The rules for operands. A text that may be an expression or a type is read once, as a tree that
keeps both readings; the place where it stands asks for the reading it needs.
-/

set_option autoImplicit false

namespace PinnedImports.Go.Grammar

open PinnedImports.Go.Parser

/-- An operand that is read as an expression. -/
def expression (rules : Rules) (ctx : Context) : Parser Tree := do
  let tree ← rules (.operand ctx)
  require tree.isValue
  return tree

/-- Arguments of a call in parentheses; three dots may stand behind each. -/
def callArguments (rules : Rules) : Parser (List Tree) := do
  symbol "("
  let arguments ← listedLoosely (do
    let argument ← expression rules .bracketed
    let _ ← Parser.optional (symbol "...")
    return argument) <|> pure []
  symbol ")"
  return arguments

/-- Arguments of `new` and `make` in parentheses: a type, then expressions. -/
def allocatorArguments (rules : Rules) : Parser (List Tree) := do
  symbol "("
  let arguments ← (do
    let type ← rules (.type false)
    let others ← many (symbol "," *> expression rules .bracketed)
    let _ ← Parser.optional (symbol ",")
    return type :: others) <|> pure []
  symbol ")"
  return arguments

/-- The braces of a composite literal: elements, each perhaps behind a key and a colon. -/
def literalBody (rules : Rules) : Parser Tree := noded .block do
  let element : Parser Tree := do
    if ← isAhead false openBrace then rules .literalBody else expression rules .bracketed
  symbol openBrace
  let entries ← listedOrComma do
    let first ← element
    if ← isAhead false ":" then
      symbol ":"
      return [first, ← element]
    return [first]
  symbol closeBrace
  return entries.flatten

/-- A type in brackets, a slice type or an array type, where the length may be left out. -/
def bracketType (rules : Rules) : Parser Tree := do
  let cs ← ahead false
  if "...".toList.isPrefixOf (afterGap false cs.tail) then
    noded .implicitArrayType do
      symbol "["
      symbol "..."
      symbol "]"
      return [← rules (.type false)]
  else rules (.type false)

/-- A function literal, or a function type where no body follows. -/
def functionOperand (rules : Rules) : Parser Tree := spanned do
  keyword "func"
  let parts ← signature rules false
  if ← isAhead false openBrace then
    return (.functionLiteral, parts ++ [← rules .block])
  return (.functionType, parts)

/-- A word as an operand. -/
def wordOperand (rules : Rules) (word : String) : Parser Tree :=
  match word with
  | "func" => functionOperand rules
  | "struct" | "interface" | "map" | "chan" => rules (.type false)
  | "nil" | "true" | "false" | "iota" => noded .literal do
    keyword word
    return []
  | "new" | "make" => do
    let function ← noded .allocator (keyword word *> pure [])
    if ← isAhead false "(" then
      let arguments ← allocatorArguments rules
      return .node .call function.start (← left) (function :: arguments)
    return function
  | _ => name

/-- An operand before anything that goes on with it. -/
def primary (rules : Rules) : Parser Tree := do
  let cs ← ahead false
  match cs with
  | '(' :: _ => noded .parenthesized do
    symbol "("
    let inner ← rules (.operand .bracketed)
    symbol ")"
    require (inner.isValue || inner.isType)
    return [inner]
  | '[' :: _ => bracketType rules
  | '<' :: _ | '~' :: _ => rules (.type false)
  | _ =>
    match word? cs with
    | some word => wordOperand rules word
    | none => noded .literal do
      let _ ← lexeme (.longest [numberLength, runeLength, stringLength])
      return []

/-- Whether the guard of a type switch comes next. -/
def guardAhead (cs : List Char) : Bool :=
  match cs with
  | '.' :: rest =>
    match afterGap false rest with
    | '(' :: rest => word? (afterGap false rest) == some "type"
    | _ => false
  | _ => false

/-- Whether a brace behind the tree opens a composite literal. -/
def opensLiteral (ctx : Context) (tree : Tree) : Bool :=
  match tree.kind with
  | .sliceType | .arrayType | .implicitArrayType | .mapType | .structType => true
  | .name => !ctx.blockFollows
  | .selector | .index _ _ => tree.isType && (!ctx.blockFollows || ctx.literals)
  | _ => false

/-- The bounds of a slice behind its first colon. -/
def sliceBounds (rules : Rules) : Parser (List Tree) := do
  symbol ":"
  if ← isAhead false "]" then return []
  let high ← expression rules .bracketed
  if ← isAhead false ":" then
    symbol ":"
    return [high, ← expression rules .bracketed]
  return [high]

/-- The readings of brackets behind a tree: as an index or an instance, which are expressions, and
as a generic type. None where the brackets are neither of them nor type arguments of a call. -/
def indexReadings (tree : Tree) (items : List Tree) (comma : Bool) : Option (Bool × Bool) :=
  let elements := items.all Tree.isElement
  let index := tree.isValue && !comma && items.length == 1 && items.all Tree.isValue
  -- `a[T]` is an instance of `a`, and that is an expression as well as a type.
  let value := index || (tree.isType && items.all Tree.isType)
  let type := (tree.kind = .name || tree.isQualified) && elements
  if value || type || (tree.isValue && elements) then some (value, type) else none

/-- An index, a slice or type arguments behind a tree. -/
def brackets (rules : Rules) (tree : Tree) : Parser Tree := do
  symbol "["
  let sliced (low : List Tree) : Parser Tree := do
    require tree.isValue
    let bounds ← sliceBounds rules
    symbol "]"
    return .node .slice tree.start (← left) (tree :: low ++ bounds)
  if ← isAhead false ":" then sliced []
  else
    let first ← rules (.operand .bracketed)
    if ← isAhead false ":" then
      require first.isValue
      sliced [first]
    else
      let others ← many (symbol "," *> rules (.operand .bracketed))
      let comma ← Parser.optional (symbol ",")
      symbol "]"
      match indexReadings tree (first :: others) comma.isSome with
      | none => failure
      | some (value, type) =>
        let items := if first.isValue && others.isEmpty then [first]
          else Tree.allAsTypes (first :: others)
        return .node (.index value type) tree.start (← left) (tree :: items)

/-- Whether the tree can be called, though it need not be an expression by itself. -/
def isCallable (tree : Tree) : Bool :=
  tree.isValue ||
    match tree.kind with
    | .index _ _ => true
    | _ => false

/-- The function of a call; a single index that is a type is a type argument. -/
def asFunction : Tree → Tree
  | .node (.index value type) start stop (operand :: items) =>
    .node (.index value type) start stop
      (operand :: if items.all Tree.isType then Tree.allAsTypes items else items)
  | tree => tree

/-- What goes on with a tree: a selector, an assertion, brackets, a call, a conversion or the body
of a composite literal. None where the tree ends. -/
def continuation (rules : Rules) (ctx : Context) (tree : Tree) : Parser (Option Tree) := do
  -- A mere type is no whole statement, so a newline behind it is only a blank.
  let cs ← ahead (ctx.newlineEnds && tree.isValue)
  match cs with
  | '.' :: rest =>
    -- Three dots belong to the argument list around, and a guard to the switch around.
    if !tree.isValue || ['.', '.'].isPrefixOf rest || (ctx.guardFollows && guardAhead cs) then
      return none
    symbol "."
    if ← isAhead false "(" then
      symbol "("
      let type ← rules (.type false)
      symbol ")"
      return some (.node .assertion tree.start (← left) [tree, type])
    let member ← name
    return some (.node .selector tree.start (← left) [tree, member])
  | '[' :: _ =>
    if tree.isValue || tree.isType then return some (← brackets rules tree)
    return none
  | '(' :: _ =>
    if isCallable tree then
      let arguments ← callArguments rules
      return some (.node .call tree.start (← left) (asFunction tree :: arguments))
    if tree.isType then
      symbol "("
      let converted ← expression rules .bracketed
      let _ ← Parser.optional (symbol ",")
      symbol ")"
      return some (.node .conversion tree.start (← left) [tree.asType, converted])
    return none
  | '{' :: _ =>
    if opensLiteral ctx tree then
      let body ← rules .literalBody
      return some (.node .compositeLiteral tree.start (← left) [tree.asType, body])
    return none
  | _ => return none

/-- The tree with everything that goes on with it, at most `n` times. -/
def continued (rules : Rules) (ctx : Context) : Nat → Tree → Parser Tree
  | 0, tree => pure tree
  | n + 1, tree => do
    match ← continuation rules ctx tree with
    | none => return tree
    | some more => continued rules ctx n more

/-- The tree with everything that goes on with it. -/
def postfixed (rules : Rules) (ctx : Context) (tree : Tree) : Parser Tree := do
  continued rules ctx (← look List.length) tree

/-- The rule for operands with their prefix operators. -/
def unary (rules : Rules) (ctx : Context) (behindStar : Bool) : Parser Tree := do
  let cs ← ahead false
  let prefixed (operator : String) : Parser Tree := noded .prefixed do
    symbol operator
    let operand ← rules (.unary ctx.inner false)
    require operand.isValue
    return [operand]
  let plain : Parser Tree := do
    let tree ← primary rules
    let braceAhead ← isAhead false openBrace
    -- Behind a star a mere type ends the pointer type, unless it is the type of a literal.
    if behindStar && !tree.isValue && !(braceAhead && opensLiteral ctx tree) then return tree
    postfixed rules ctx tree
  match cs with
  | '*' :: _ =>
    let tree ← spanned do
      symbol "*"
      let commented ← gap false
      let operand ← rules (.unary ctx.inner true)
      require (operand.isValue || operand.isType)
      return (if operand.isValue then .dereference commented else .pointerType commented, [operand])
    -- What follows a pointer type goes on with the whole of it, as in `*[]T(x)`.
    if tree.isValue || behindStar then return tree
    postfixed rules ctx tree
  | '<' :: rest =>
    -- Before `chan` the arrow is the start of a channel type and not a receive operator.
    if word? (afterGap false rest.tail) == some "chan" then plain else prefixed "<-"
  | '+' :: _ => prefixed "+"
  | '-' :: _ => prefixed "-"
  | '!' :: _ => prefixed "!"
  | '^' :: _ => prefixed "^"
  | '&' :: _ => prefixed "&"
  | _ => plain

/-- The operators and operands behind a first operand, at most `n` of each. -/
def operations (rules : Rules) (ctx : Context) : Nat → Tree → Parser (List (List Char × Tree))
  | 0, _ => pure []
  | n + 1, last => do
    match ctx.follow.binaryOperator? (← ahead (ctx.newlineEnds && last.isValue)) with
    | none => return []
    | some operator =>
      let _ ← lexeme (.exactly operator)
      let next ← rules (.unary ctx.inner false)
      return (operator, next) :: (← operations rules ctx n next)

/-- The rule for operands with binary operators between them. -/
def operand (rules : Rules) (ctx : Context) : Parser Tree := do
  let first ← rules (.unary ctx false)
  let more ← operations rules ctx (← look List.length) first
  if more.isEmpty then return first
  let operands := first :: more.map (·.2)
  -- Bars alone may also join types, so such an operation keeps both readings.
  let bars := more.all (·.1 == ['|'])
  require (operands.all Tree.isValue || (bars && operands.all Tree.isType))
  return .node (if bars then .alternation else .operation) first.start (← left) operands

/-- Expressions with commas between them. -/
def expressions (rules : Rules) (ctx : Context) : Parser (List Tree) :=
  listed ctx.newlineEnds (expression rules ctx)

end PinnedImports.Go.Grammar
