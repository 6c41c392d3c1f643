import PinnedImports.Text.Bytes
import PinnedImports.Text.Sort

/-!
# Edits of a text

An edit exchanges a range of bytes for a new text. Several edits speak of places in the same text;
`applyEdits` makes them from the last to the first, so that the places of those still to come stay
valid. An edit whose range does not lie in the text is passed over.
-/

set_option autoImplicit false

namespace PinnedImports.Text

/-- The exchange of the bytes from `start` up to `stop`. -/
structure Edit where
  start : Nat
  stop : Nat
  text : List Char

/-- The text after one edit. -/
def Edit.apply (text : List Char) (edit : Edit) : List Char :=
  if edit.start ≤ edit.stop ∧ edit.stop ≤ byteLength text then
    takeBytes edit.start text ++ edit.text ++ dropBytes edit.stop text
  else text

/-- The text after all edits. -/
def applyEdits (text : List Char) (edits : List Edit) : List Char :=
  (sortBy (fun a b => b.start ≤ a.start) edits).foldl Edit.apply text

end PinnedImports.Text
