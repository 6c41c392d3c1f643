/-!
# Paths as text

A path is kept as it was written, so that it is printed as it was given. One whose bytes are no UTF-8
stands as the text under which it is shown, and different entries of a directory as different texts.
`join` appends to a path, `parent` names the directory that holds its last component, and `components`
is what a lookup follows.
-/

set_option autoImplicit false

namespace PinnedImports.Storage

/-- Whether a path begins at the root of the file system. -/
def isAbsolute (path : String) : Bool := path.toList.head? == some '/'

/-- The path `name` below the path `base`; an absolute `name` stands for itself. -/
def join (base name : String) : String :=
  if isAbsolute name || base.isEmpty then name
  else if base.toList.getLast? == some '/' then base ++ name
  else base ++ "/" ++ name

/-- The components of a path, without the separators. A separator at the end of the path counts as
one more component `.`, since it asks for a directory. -/
def components (path : List Char) : List String :=
  let pieces := pieces path
  let names := (pieces.filter (!·.isEmpty)).map String.ofList
  if path.getLast? = some '/' then names ++ ["."] else names
where
  /-- The pieces between separators. -/
  pieces : List Char → List (List Char)
    | [] => [[]]
    | c :: rest =>
      if c = '/' then [] :: pieces rest
      else
        match pieces rest with
        | piece :: others => (c :: piece) :: others
        | [] => [[c]]

/-- The path without separators and `.` components at its end. -/
def trimmed (path : List Char) : List Char :=
  (dropEnd path.reverse).reverse
where
  /-- Drops separators and lone dots from the front of a reversed path. -/
  dropEnd : List Char → List Char
    | '/' :: rest => dropEnd rest
    | ['.'] => ['.']
    | '.' :: '/' :: rest => dropEnd rest
    | cs => cs

/-- The path of the directory that holds the last component; empty when there is no other
component. -/
def parent (path : String) : String :=
  let above := ((trimmed path.toList).reverse.dropWhile (· != '/')).dropWhile (· == '/')
  String.ofList (trimmed above.reverse)

end PinnedImports.Storage
