/-!
# Glob patterns

A pattern is matched against a whole text. `?` stands for one character, `*` for any run of
characters, separators included, `**` as a component of its own for any run of whole components or
for all that is left, and brackets for one character of a class or, after `!`, of no member of it.
`Glob.parse` reads a pattern and points at the place of a mistake.
-/

set_option autoImplicit false

namespace PinnedImports.Text

/-- A member of a bracketed class: the characters from `first` to `last`. -/
structure CharRange where
  first : Char
  last : Char
  deriving Repr, DecidableEq

/-- An atom of a pattern. -/
inductive Glob.Atom where
  | char (c : Char)
  /-- `?` -/
  | any
  /-- A class in brackets. -/
  | within (ranges : List CharRange)
  /-- A class in brackets behind `!`. -/
  | except (ranges : List CharRange)
  /-- `*` -/
  | run
  /-- `**` -/
  | components
  deriving Repr, DecidableEq

/-- A pattern. -/
structure Glob where
  atoms : List Glob.Atom
  deriving Repr, DecidableEq

namespace Glob

/-- The mistakes in a pattern. -/
inductive Mistake where
  | wildcards
  | recursiveWildcards
  | range
  deriving Repr, DecidableEq

/-- A mistake and its place, counted in characters. -/
structure ParseError where
  position : Nat
  mistake : Mistake
  deriving Repr, DecidableEq

/-- The wording of a mistake. -/
def Mistake.message : Mistake → String
  | wildcards => "wildcards are either regular `*` or recursive `**`"
  | recursiveWildcards => "recursive wildcards must form a single path component"
  | range => "invalid range pattern"

/-- The wording of a mistake with its place. -/
def ParseError.message (e : ParseError) : String :=
  "Pattern syntax error near position " ++ toString e.position ++ ": " ++ e.mistake.message

/-! ## Matching -/

/-- Whether the character lies in one of the ranges. -/
def inRanges (ranges : List CharRange) (c : Char) : Bool :=
  ranges.any fun r => r.first ≤ c && c ≤ r.last

/-- Whether an atom stands for the single character. -/
def Atom.admits : Atom → Char → Bool
  | char d, c => c == d
  | any, _ => true
  | within ranges, c => inRanges ranges c
  | except ranges, c => !inRanges ranges c
  | run, _ => false
  | components, _ => false

/-- The rests of a text after any number of characters. -/
def rests : List Char → List (List Char)
  | [] => [[]]
  | c :: cs => (c :: cs) :: rests cs

/-- The rests of a text after each separator, and the empty rest at its end. -/
def restsAfterSeparator : List Char → List (List Char)
  | [] => [[]]
  | c :: cs => if c = '/' then cs :: restsAfterSeparator cs else restsAfterSeparator cs

/-- Whether the atoms stand for the text. -/
def matchesAtoms : List Atom → List Char → Bool
  | [], cs => cs.isEmpty
  | .run :: atoms, cs => (rests cs).any (matchesAtoms atoms)
  | .components :: atoms, cs => (cs :: restsAfterSeparator cs).any (matchesAtoms atoms)
  | atom :: atoms, c :: cs => atom.admits c && matchesAtoms atoms cs
  | _ :: _, [] => false

/-- Whether the pattern matches the whole text. -/
def accepts (g : Glob) (text : String) : Bool := matchesAtoms g.atoms text.toList

/-! ## Reading patterns -/

/-- The ranges that the characters between brackets spell. -/
def ranges : List Char → List CharRange
  | a :: '-' :: b :: rest => ⟨a, b⟩ :: ranges rest
  | a :: rest => ⟨a, a⟩ :: ranges rest
  | [] => []

/-- A bracketed class after its opening bracket: the atom, the number of characters read and the
rest. The first character of the class may be a closing bracket. -/
def bracket? (cs : List Char) : Option (Atom × Nat × List Char) :=
  let closed (cs : List Char) : Option (List Char × List Char) :=
    match cs with
    | [] => none
    -- The first character is a member whatever it is.
    | c :: rest =>
      match rest.dropWhile (· != ']') with
      | [] => none
      | _ :: after => some (c :: rest.takeWhile (· != ']'), after)
  match cs with
  | '!' :: cs => (closed cs).map fun (members, rest) =>
      (.except (ranges members), members.length + 2, rest)
  | cs => (closed cs).map fun (members, rest) =>
      (.within (ranges members), members.length + 1, rest)

/-- The atoms of a pattern from `position` on, behind the character `before`. The first argument
bounds the number of atoms. -/
def parseFrom : Nat → Nat → Option Char → List Char → Except ParseError (List Atom)
  | 0, _, _, _ => .ok []
  | _, _, _, [] => .ok []
  | n + 1, position, before, c :: rest =>
    match c with
    | '?' => (parseFrom n (position + 1) (some c) rest).map (.any :: ·)
    | '*' =>
      match rest with
      | '*' :: '*' :: _ => .error ⟨position + 2, .wildcards⟩
      | '*' :: rest =>
        -- Two stars have to fill the component: a separator or an end on either side.
        if before = none ∨ before = some '/' then
          match rest with
          | [] => .ok [.components]
          | d :: rest =>
            if d = '/' then
              (parseFrom n (position + 3) (some '/') rest).map (.components :: ·)
            else .error ⟨position + 2, .recursiveWildcards⟩
        else .error ⟨position - 1, .recursiveWildcards⟩
      | rest => (parseFrom n (position + 1) (some c) rest).map (.run :: ·)
    | '[' =>
      match bracket? rest with
      | some (atom, length, rest) =>
        (parseFrom n (position + 1 + length) (some ']') rest).map (atom :: ·)
      | none => .error ⟨position, .range⟩
    | c => (parseFrom n (position + 1) (some c) rest).map (.char c :: ·)

/-- The pattern that a text spells. -/
def parse (text : String) : Except ParseError Glob :=
  (parseFrom text.length 0 none text.toList).map Glob.mk

end Glob

end PinnedImports.Text
