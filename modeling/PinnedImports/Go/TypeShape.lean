import PinnedImports.Go.TreeCursor
import PinnedImports.Text.Bytes

/-!
# Types that a run-time comparison names

A type assertion and a case of a type switch compare the type of a value with a named type. The
comparison fails once the named type comes from another import path, so an import whose types are
compared has to keep its path. `TypeShape` is as much of a type as is attributed to a package: a
qualified name and pointers to one. `typeComparison?` finds the first comparison with a type of a
package.
-/

set_option autoImplicit false

namespace PinnedImports.Go

/-- A type, as far as it is attributed to a package. -/
inductive TypeShape where
  | qualified (package name : String)
  | pointer (shape : TypeShape)
  | other
deriving DecidableEq

/-- The package of a qualified name behind any number of pointers. -/
def TypeShape.package? : TypeShape → Option String
  | .qualified package _ => some package
  | .pointer shape => shape.package?
  | .other => none

namespace Tree

/-- The characters of a node. -/
def textIn (tree : Tree) (text : List Char) : String :=
  String.ofList (Text.slice tree.start tree.stop text)

/-- The shape of a tree. A pointer type with a comment behind its star is a pointer to some other
type; parentheses, type arguments and composed types have no shape. -/
def shape (text : List Char) : Tree → TypeShape
  | node .qualifiedType _ _ [package, name] =>
    .qualified (package.textIn text) (name.textIn text)
  | node .selector _ _ [operand, name] =>
    if operand.isName then .qualified (operand.textIn text) (name.textIn text) else .other
  | node (.pointerType commented) _ _ [type] =>
    .pointer (if commented then .other else shape text type)
  | node (.dereference _) _ _ [operand] => .pointer (shape text operand)
  | _ => .other

/-- The types that a node compares at run time: the type of an assertion, and the types of a case of
a type switch. -/
def comparedTypes : Tree → List Tree
  | node .assertion _ _ [_, type] => [type]
  | node .typeCase _ _ (types :: _) => types.children
  | _ => []

/-- Whether the node compares with a type of the package. -/
def compares (text : List Char) (package : String) (tree : Tree) : Bool :=
  tree.comparedTypes.any fun type => (type.shape text).package? == some package

/-- The tree of a whole file, with its declarations and statements as parts. -/
def ofFile (text : List Char) (code : List Tree) : Tree :=
  node .block 0 (Text.byteLength text) code

/-- The root of a file compares nothing, so what is found in a file is found in its code. -/
theorem find?_ofFile (text : List Char) (code : List Tree) (package : String) :
    (ofFile text code).find? (compares text package) =
      (preorderAll code).find? (compares text package) := by
  have hroot : compares text package (ofFile text code) = false := rfl
  rw [find?_eq, ofFile, preorder, ← ofFile, List.find?_cons, hroot]

end Tree

/-- A comparison with the type of a package, with the line it starts on. -/
inductive TypeComparison where
  | assertion (line : Nat)
  | switchCase (line : Nat)
deriving DecidableEq

/-- The first comparison with a type of the package among the trees of a text. -/
def typeComparison? (text : List Char) (code : List Tree) (package : String) :
    Option TypeComparison :=
  ((Tree.ofFile text code).find? (Tree.compares text package)).map fun tree =>
    let line := Text.lineAt tree.start text
    if tree.kind = .assertion then .assertion line else .switchCase line

end PinnedImports.Go
