import PinnedImports.Confirm.Key
import PinnedImports.Text.Paint

/-!
# Questions and their answers

Before a repository's imports change, the operator is asked. `decideByBytes` takes the answer from a
byte list and asks again after every byte without a meaning; at the end of the bytes it aborts.
`decideByKeys` takes it from the keys of a terminal, asks once and passes over keys without a
meaning. Both return the bytes that are left.
-/

set_option autoImplicit false

namespace PinnedImports.Confirm

/-- A proposed change of path that awaits an answer. -/
structure Prompt where
  source : String
  replacement : String
  package : String
  deriving Repr, DecidableEq

/-- The question about a change of path. -/
def Prompt.question (p : Prompt) (palette : Text.Palette) : String :=
  "rewrite import " ++ palette.paint .red p.source ++ " to " ++
    palette.paint .green p.replacement ++ " in package " ++ p.package ++ "?"

/-- An answer: the decision, how often the question was asked, and the bytes after the deciding
one. -/
structure Answer where
  decision : Decision
  asked : Nat
  rest : List UInt8
  deriving Repr, DecidableEq

/-- The answer of typed bytes. -/
def decideByBytes : List UInt8 → Answer
  | [] => ⟨.abort, 1, []⟩
  | b :: rest =>
    match Decision.ofByte? b with
    | some decision => ⟨decision, 1, rest⟩
    | none =>
      let later := decideByBytes rest
      ⟨later.decision, later.asked + 1, later.rest⟩

/-- The answer at a terminal whose keys are read one at a time with `next`, and the terminal behind
the deciding key. There is none where none of `n` keys has a meaning, and where no key comes. -/
def decideByKeysWithin {τ : Type} (next : τ → Option (Key × τ)) :
    Nat → τ → Option (Decision × τ)
  | 0, _ => none
  | n + 1, terminal =>
    match next terminal with
    | none => none
    | some (key, terminal) =>
      match Decision.ofKey? key with
      | some decision => some (decision, terminal)
      | none => decideByKeysWithin next n terminal

/-- The answer of the keys typed at a terminal, and the bytes that are left. The Ctrl-C behind the
last byte is an answer. -/
def decideByKeys (bytes : List UInt8) : Decision × List UInt8 :=
  (decideByKeysWithin (fun bytes => some (Key.next bytes)) (bytes.length + 1) bytes).getD
    (.abort, [])

end PinnedImports.Confirm
