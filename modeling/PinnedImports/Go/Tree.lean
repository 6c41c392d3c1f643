/-!
# Syntax trees of Go

A tree node has a kind, the byte range of its text and its parts in source order. The grammar counts
places from the end of the text, as its cursors do; `turned` counts them from the start. Blanks,
comments and punctuation are not kept, except that a star remembers a comment between it and its
operand.

Go reads some texts both as an expression and as a type: `a.b`, `*a`, `(a)`, `a[b]`. The tree keeps
the reading as an expression where there is one; `isValue` and `isType` say which readings a tree
has, and `asType` is its reading as a type.
-/

set_option autoImplicit false

namespace PinnedImports.Go

/-- What a node of a syntax tree is. -/
inductive Kind where
  /-- an identifier -/
  | name
  /-- `new` or `make` as an expression -/
  | allocator
  /-- a literal or a predeclared constant -/
  | literal
  | functionLiteral
  | compositeLiteral
  | parenthesized
  /-- a prefix operator other than a star, with its operand -/
  | prefixed
  /-- a star with an expression behind it, and whether a comment stands between -/
  | dereference (commented : Bool)
  /-- operands with operators between them -/
  | operation
  /-- operands with bars between them -/
  | alternation
  /-- an operand and the name behind its dot -/
  | selector
  /-- an operand and what stands behind it in brackets, and its readings -/
  | index (value type : Bool)
  | slice
  | call
  | conversion
  /-- an operand and the type that is asserted of it -/
  | assertion
  /-- a package name and a type name -/
  | qualifiedType
  /-- a star with a type behind it, and whether a comment stands between -/
  | pointerType (commented : Bool)
  | parenthesizedType
  | genericType
  | sliceType
  | arrayType
  /-- an array type whose length is left to its literal -/
  | implicitArrayType
  | structType
  | interfaceType
  | mapType
  | channelType
  | functionType
  | negatedType
  | declaration
  | statement
  | block
  /-- the types of a case -/
  | typeList
  /-- a case of a type switch: its types, then its statements -/
  | typeCase
deriving DecidableEq

/-- A syntax tree: kind, byte range and parts. -/
inductive Tree where
  | node (kind : Kind) (start stop : Nat) (children : List Tree)

namespace Tree

/-- What the root is. -/
def kind : Tree → Kind | node kind _ _ _ => kind

/-- The byte at which the text starts. -/
def start : Tree → Nat | node _ start _ _ => start

/-- The byte behind the text. -/
def stop : Tree → Nat | node _ _ stop _ => stop

/-- The parts in source order. -/
def children : Tree → List Tree | node _ _ _ children => children

mutual
/-- The tree with places counted from the end of a text of `size` bytes instead of from its start, or
the other way round. -/
def turned (size : Nat) : Tree → Tree
  | node kind start stop children =>
    node kind (size - start) (size - stop) (turnedAll size children)

/-- Several trees with their places turned. -/
def turnedAll (size : Nat) : List Tree → List Tree
  | [] => []
  | tree :: rest => turned size tree :: turnedAll size rest
end

mutual
/-- The nodes, each before its parts and the parts in source order. -/
def preorder : Tree → List Tree
  | node kind start stop children => node kind start stop children :: preorderAll children

/-- The nodes of several trees, one tree after another. -/
def preorderAll : List Tree → List Tree
  | [] => []
  | tree :: rest => preorder tree ++ preorderAll rest
end

mutual
/-- Whether the text can be read as an expression. -/
def isValue : Tree → Bool
  | node (.name) _ _ _ => true
  | node (.parenthesized) _ _ children => allValues children
  | node (.alternation) _ _ children => allValues children
  | node (.index value _) _ _ _ => value
  | node kind _ _ _ =>
    kind ∈ [.allocator, .literal, .functionLiteral, .compositeLiteral, .prefixed,
      .dereference false, .dereference true, .operation, .selector, .slice, .call, .conversion,
      .assertion]

/-- Whether all texts can be read as expressions. -/
def allValues : List Tree → Bool
  | [] => true
  | tree :: rest => isValue tree && allValues rest
end

/-- Whether the node is an identifier; `new` and `make` are. -/
def isName (t : Tree) : Bool := t.kind = .name || t.kind = .allocator

/-- Whether the text reads as a package name and a type name. -/
def isQualified : Tree → Bool
  | node .selector _ _ (operand :: _) => operand.kind = .name
  | _ => false

mutual
/-- Whether the text can be read as a type. -/
def isType : Tree → Bool
  | node .name _ _ _ => true
  | node .selector start stop children => isQualified (node .selector start stop children)
  | node .parenthesized _ _ children => allTypes children
  | node (.dereference _) _ _ children => allTypes children
  | node (.index _ type) _ _ _ => type
  | node kind _ _ _ =>
    kind ∈ [.qualifiedType, .pointerType false, .pointerType true, .parenthesizedType,
      .genericType, .sliceType, .arrayType, .structType, .interfaceType, .mapType, .channelType,
      .functionType, .negatedType]

/-- Whether all texts can be read as types. -/
def allTypes : List Tree → Bool
  | [] => true
  | tree :: rest => isType tree && allTypes rest
end

/-- Whether the text can be read as a type or as types with bars between them. -/
def isElement (t : Tree) : Bool := t.isType || (t.kind = .alternation && allTypes t.children)

mutual
/-- The reading as a type. -/
def asType : Tree → Tree
  | node kind start stop children =>
    match kind with
    | .selector => node .qualifiedType start stop children
    | .parenthesized => node .parenthesizedType start stop (allAsTypes children)
    | .dereference commented => node (.pointerType commented) start stop (allAsTypes children)
    | .index _ _ => node .genericType start stop (allAsTypes children)
    | .alternation => node .alternation start stop (allAsTypes children)
    | _ => node kind start stop children

/-- The readings as types. -/
def allAsTypes : List Tree → List Tree
  | [] => []
  | tree :: rest => asType tree :: allAsTypes rest
end

end Tree

end PinnedImports.Go
