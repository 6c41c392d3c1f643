import PinnedImports.Confirm.Gate
import PinnedImports.Transcript

/-!
# Ways of asking

A question is asked of a list of bytes, on standard output once for every byte that is read, or at a
terminal, on standard error once. Without a terminal there is nobody to ask.
-/

set_option autoImplicit false

namespace PinnedImports.Confirm

/-- Takes the answer from a list of bytes; the last part is what is left of them. -/
def askBytes (palette : Text.Palette) (prompt : Prompt) (bytes : List UInt8) :
    (Except String Decision × Transcript) × List UInt8 :=
  let answer := decideByBytes bytes
  let line := prompt.question palette ++ " (y/N)\n"
  ((.ok answer.decision, .ofOut (String.join (List.replicate answer.asked line))), answer.rest)

/-- Takes the answer from the keys typed at a terminal, if there is one; the last part is what is
left of them. -/
def askTerminal (palette : Text.Palette) (prompt : Prompt) (terminal : Option (List UInt8)) :
    (Except String Decision × Transcript) × Option (List UInt8) :=
  match terminal with
  | none => ((.error "interactive mode needs a terminal", ∅), none)
  | some bytes =>
    let (decision, rest) := decideByKeys bytes
    ((.ok decision, .ofErr (prompt.question palette ++ " (y/N) \n")), some rest)

end PinnedImports.Confirm
