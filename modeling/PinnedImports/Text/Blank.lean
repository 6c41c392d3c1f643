/-!
# Blank characters

`isBlank` is the Unicode property `White_Space`. Lines of a source file and options of a build
constraint are trimmed and split by it.
-/

set_option autoImplicit false

namespace PinnedImports.Text

/-- The Unicode property `White_Space`. -/
def isBlank (c : Char) : Bool :=
  let n := c.toNat
  n == 0x20 || (0x9 ≤ n && n ≤ 0xD) || n == 0x85 || n == 0xA0 || n == 0x1680 ||
    (0x2000 ≤ n && n ≤ 0x200A) || n == 0x2028 || n == 0x2029 || n == 0x202F || n == 0x205F ||
    n == 0x3000

/-- The characters without blanks at the front. -/
def trimStart (cs : List Char) : List Char := cs.dropWhile isBlank

/-- The characters without blanks at the end. -/
def trimEnd (cs : List Char) : List Char := (cs.reverse.dropWhile isBlank).reverse

/-- The characters without blanks at either end. -/
def trim (cs : List Char) : List Char := trimEnd (trimStart cs)

/-- Whether all characters are blank. -/
def allBlank (cs : List Char) : Bool := cs.all isBlank

/-- The pieces between the characters that satisfy `p`; there is one more piece than there are such
characters. -/
def split (p : Char → Bool) : List Char → List (List Char)
  | [] => [[]]
  | c :: rest =>
    if p c then [] :: split p rest
    else
      match split p rest with
      | piece :: others => (c :: piece) :: others
      | [] => [[c]]

/-- The words between blanks. -/
def words (cs : List Char) : List (List Char) := (split isBlank cs).filter (!·.isEmpty)

/-- The lines: what stands before each newline, and the rest when it is not empty. -/
def lines (cs : List Char) : List (List Char) :=
  let pieces := split (· == '\n') cs
  if pieces.getLast? = some [] then pieces.dropLast else pieces

/-- The rest after `start`, when the characters begin with it. -/
def after? (start cs : List Char) : Option (List Char) := start.isPrefixOf? cs

/-- What stands before `ending`, when the characters end with it. -/
def before? (ending cs : List Char) : Option (List Char) :=
  (ending.reverse.isPrefixOf? cs.reverse).map List.reverse

end PinnedImports.Text
