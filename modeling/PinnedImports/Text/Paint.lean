/-!
# Coloured terminal text

A painted text stands between the escape sequence that sets its colour and the one that resets it.
A reset inside the text would end the colour early, so the colour is set again after each of them.
Painting can be switched off, and then changes nothing.
-/

set_option autoImplicit false

namespace PinnedImports.Text

/-- The colours in use. -/
inductive Colour where
  | red
  | green
  | yellow
  | blue
  | cyan
  deriving Repr, DecidableEq

/-- The colour's number in an escape sequence. -/
def Colour.code : Colour → String
  | red => "31"
  | green => "32"
  | yellow => "33"
  | blue => "34"
  | cyan => "36"

/-- The sequence that ends all colours. -/
def resetSequence : List Char := "\x1b[0m".toList

/-- The sequence that sets a colour, in bold face or not. -/
def setSequence (colour : Colour) (bold : Bool) : List Char :=
  "\x1b[".toList ++ (if bold then "1;" else "").toList ++ colour.code.toList ++ ['m']

/-- The text with `again` behind each reset in it; the first argument bounds the text's length. -/
def renewWithin (again : List Char) : Nat → List Char → List Char
  | 0, cs => cs
  | _ + 1, [] => []
  | n + 1, c :: rest =>
    match resetSequence.isPrefixOf? (c :: rest) with
    | some rest => resetSequence ++ again ++ renewWithin again n rest
    | none => c :: renewWithin again n rest

/-- Whether texts are painted. -/
structure Palette where
  enabled : Bool
  deriving Repr, DecidableEq

namespace Palette

/-- The text in a colour, in bold face or not. -/
def paintWith (p : Palette) (colour : Colour) (bold : Bool) (text : String) : String :=
  if p.enabled then
    let start := setSequence colour bold
    String.ofList (start ++ renewWithin start text.length text.toList ++ resetSequence)
  else text

/-- The text in a colour. -/
def paint (p : Palette) (colour : Colour) (text : String) : String := p.paintWith colour false text

/-- The text in a colour and in bold face. -/
def bold (p : Palette) (colour : Colour) (text : String) : String := p.paintWith colour true text

end Palette

end PinnedImports.Text
