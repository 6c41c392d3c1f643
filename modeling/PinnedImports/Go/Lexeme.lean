import PinnedImports.Text.Identifier

/-!
# Lexemes of Go

Each measure says how many characters a lexeme at the front of a text takes: the blanks and
comments between tokens, identifiers, number, character and string literals, and operators. Where
two lexemes start alike the longer one is meant. In comments and string literals the character NUL
counts like any other; a lexer that takes it for the end of its input stops there, so on texts with NUL
in such a place the two may differ.
-/

set_option autoImplicit false

namespace PinnedImports.Go

/-- How many characters at the front form a lexeme, if they do. -/
abbrev Measure : Type := List Char → Option Nat

namespace Measure

/-- Exactly the given characters. -/
def exactly (text : List Char) : Measure := fun cs =>
  if text.isPrefixOf cs then some text.length else none

/-- One character that satisfies `p`. -/
def one (p : Char → Bool) : Measure
  | c :: _ => if p c then some 1 else none
  | [] => none

/-- One lexeme after another. -/
def andThen (a b : Measure) : Measure := fun cs => do
  let n ← a cs
  let m ← b (cs.drop n)
  return n + m

/-- The lexeme or nothing. -/
def orNothing (a : Measure) : Measure := fun cs => some ((a cs).getD 0)

/-- The longest of several lexemes. -/
def longest (measures : List Measure) : Measure := fun cs =>
  (measures.filterMap (· cs)).max?

end Measure

/-! ## Blanks and comments -/

/-- Blanks between tokens are the ASCII ones. -/
def isGap (c : Char) : Bool := c = ' ' || ('\t' ≤ c && c ≤ '\r')

/-- Where in the blanks a scan stands. -/
inductive GapState where
  | between
  | lineComment
  | blockComment

/-- Whether a block comment is closed in the text. -/
def closesComment : List Char → Bool
  | '*' :: '/' :: _ => true
  | _ :: rest => closesComment rest
  | [] => false

/-- The number of characters in the blanks and comments at the front. With `newlineEnds` they end
before the first newline outside a block comment. A block comment that is not closed is none. -/
def gapLength (newlineEnds : Bool) : GapState → List Char → Nat
  | .between, '/' :: '/' :: rest => gapLength newlineEnds .lineComment rest + 2
  | .between, '/' :: '*' :: rest =>
    -- Without an end the two characters are left to the parser, which fails on them.
    if closesComment rest then gapLength newlineEnds .blockComment rest + 2 else 0
  | .between, c :: rest =>
    if isGap c && !(newlineEnds && c == '\n') then gapLength newlineEnds .between rest + 1 else 0
  | .lineComment, c :: rest =>
    if c == '\n' then (if newlineEnds then 0 else gapLength newlineEnds .between rest + 1)
    else gapLength newlineEnds .lineComment rest + 1
  | .blockComment, '*' :: '/' :: rest => gapLength newlineEnds .between rest + 2
  | .blockComment, _ :: rest => gapLength newlineEnds .blockComment rest + 1
  | _, [] => 0

theorem gapLength_nil (newlineEnds : Bool) (state : GapState) :
    gapLength newlineEnds state [] = 0 := by
  cases state <;> simp [gapLength]

theorem gapLength_between (newlineEnds : Bool) {c : Char} {cs : List Char}
    (hline : ∀ rest, c = '/' → cs = '/' :: rest → False)
    (hblock : ∀ rest, c = '/' → cs = '*' :: rest → False) :
    gapLength newlineEnds .between (c :: cs) =
      if isGap c && !(newlineEnds && c == '\n') then gapLength newlineEnds .between cs + 1
      else 0 := by
  rw [gapLength]
  · exact hline
  · exact hblock

theorem gapLength_between_of_ne (newlineEnds : Bool) {c : Char} (hc : c ≠ '/')
    (cs : List Char) :
    gapLength newlineEnds .between (c :: cs) =
      if isGap c && !(newlineEnds && c == '\n') then gapLength newlineEnds .between cs + 1
      else 0 :=
  gapLength_between newlineEnds (fun _ h => absurd h hc) fun _ h => absurd h hc

theorem gapLength_blockComment (newlineEnds : Bool) {c : Char} {cs : List Char}
    (hclose : ∀ rest, c = '*' → cs = '/' :: rest → False) :
    gapLength newlineEnds .blockComment (c :: cs) = gapLength newlineEnds .blockComment cs + 1 := by
  rw [gapLength]
  exact hclose

/-- The characters behind the blanks and comments at the front. -/
def afterGap (newlineEnds : Bool) (cs : List Char) : List Char :=
  cs.drop (gapLength newlineEnds .between cs)

/-- The characters that end a statement. -/
def isTerminator (c : Char) : Bool := c = '\n' || c = ';' || c = '\x00'

/-! ## Words -/

/-- An identifier or keyword. -/
def wordLength : Measure
  | c :: rest =>
    if Text.isIdentifierStart c then some ((rest.takeWhile Text.isIdentifierContinue).length + 1)
    else none
  | [] => none

/-- The word at the front. -/
def word? (cs : List Char) : Option String :=
  (wordLength cs).map fun n => String.ofList (cs.take n)

/-! ## Numbers -/

/-- Digits that go on a number, each after at most one underscore. -/
def moreDigits (p : Char → Bool) : List Char → Nat
  | '_' :: d :: rest => if p d then moreDigits p rest + 2 else 0
  | c :: rest => if p c then moreDigits p rest + 1 else 0
  | [] => 0

/-- Digits with at most one underscore between two of them. -/
def digits (p : Char → Bool) : Measure
  | c :: rest => if p c then some (moreDigits p rest + 1) else none
  | [] => none

/-- A hexadecimal digit. -/
def isHexDigit (c : Char) : Bool :=
  c.isDigit || ('a' ≤ c && c ≤ 'f') || ('A' ≤ c && c ≤ 'F')

/-- An octal digit. -/
def isOctalDigit (c : Char) : Bool := '0' ≤ c && c ≤ '7'

/-- Either case of a letter. -/
def letter (lower : Char) : Measure := .one fun c => c == lower || c == lower.toUpper

open PinnedImports.Go.Measure in
/-- Digits of a base after `0` and the letter of the base. -/
def based (base : Measure) (p : Char → Bool) : Measure :=
  (exactly ['0']).andThen (base.andThen ((exactly ['_']).orNothing.andThen (digits p)))

open PinnedImports.Go.Measure in
/-- An integer. -/
def integerLength : Measure :=
  longest [based (letter 'b') (fun c => c == '0' || c == '1'),
    based (letter 'x') isHexDigit,
    based (letter 'o').orNothing isOctalDigit,
    exactly ['0'],
    (one fun c => '1' ≤ c && c ≤ '9').andThen
      ((exactly ['_']).orNothing.andThen (digits Char.isDigit)).orNothing]

open PinnedImports.Go.Measure in
/-- An exponent after the given letter. -/
def exponent (sign : Char) : Measure :=
  (letter sign).andThen
    ((one fun c => c == '+' || c == '-').orNothing.andThen (digits Char.isDigit))

open PinnedImports.Go.Measure in
/-- A floating-point number, decimal or hexadecimal. -/
def floatLength : Measure :=
  let decimals := digits Char.isDigit
  let hexDigits := digits isHexDigit
  let underscore := (exactly ['_']).orNothing
  let hexMantissa := longest
    [underscore.andThen (hexDigits.andThen ((exactly ['.']).andThen hexDigits.orNothing)),
      underscore.andThen hexDigits, (exactly ['.']).andThen hexDigits]
  longest
    [decimals.andThen
        ((exactly ['.']).andThen (decimals.orNothing.andThen (exponent 'e').orNothing)),
      decimals.andThen (exponent 'e'),
      (exactly ['.']).andThen (decimals.andThen (exponent 'e').orNothing),
      (exactly ['0']).andThen ((letter 'x').andThen (hexMantissa.andThen (exponent 'p')))]

open PinnedImports.Go.Measure in
/-- A number: an integer or a float, imaginary with `i` behind it. -/
def numberLength : Measure :=
  -- Decimal digits may start with a zero only before `i`.
  let real := longest [digits Char.isDigit, integerLength, floatLength]
  longest [integerLength, floatLength, real.andThen (exactly ['i'])]

/-! ## Character and string literals -/

/-- Exactly `n` characters that satisfy `p`. -/
def times (p : Char → Bool) : Nat → Measure
  | 0 => fun _ => some 0
  | n + 1 => (Measure.one p).andThen (times p n)

open PinnedImports.Go.Measure in
/-- A character between single quotes, plain or escaped. -/
def runeLength : Measure :=
  let escaped := longest
    [(exactly ['x']).andThen (times isHexDigit 2), times isOctalDigit 3,
      (exactly ['u']).andThen (times isHexDigit 4), (exactly ['U']).andThen (times isHexDigit 8),
      one fun c => "abfnrtv\\'\"".toList.contains c]
  (exactly ['\'']).andThen
    ((longest [one fun c => c != '\'' && c != '\\', (exactly ['\\']).andThen escaped]).andThen
      (exactly ['\'']))

/-- The number of characters up to and with the double quote that closes a string. A backslash
takes the next character with it; after `x`, `u` and `U` hexadecimal digits have to follow. -/
def quotedRest : List Char → Option Nat
  | '"' :: _ => some 1
  | '\\' :: c :: rest =>
    -- After any other character an escape is complete.
    let due := if c == 'x' then 2 else if c == 'u' then 4 else if c == 'U' then 8 else 0
    if (rest.take due).all isHexDigit && due ≤ rest.length then (quotedRest rest).map (· + 2)
    else none
  | c :: rest => if c == '\n' || c == '\\' then none else (quotedRest rest).map (· + 1)
  | [] => none

theorem quotedRest_plain {c : Char} (hquote : c ≠ '"') (hslash : c ≠ '\\') (hnewline : c ≠ '\n')
    (rest : List Char) : quotedRest (c :: rest) = (quotedRest rest).map (· + 1) := by
  rw [quotedRest]
  · simp [hslash, hnewline]
  · exact fun h => hquote h
  · rintro - - rfl
    exact absurd rfl hslash

/-- The number of characters up to and with the backquote that closes a raw string. -/
def rawRest : List Char → Option Nat
  | c :: rest => if c == '`' then some 1 else (rawRest rest).map (· + 1)
  | [] => none

/-- A string literal between double quotes or backquotes. -/
def stringLength : Measure
  | '"' :: rest => (quotedRest rest).map (· + 1)
  | '`' :: rest => (rawRest rest).map (· + 1)
  | _ => none

/-! ## Operators -/

/-- The operators between two operands. -/
def binaryOperators : List (List Char) :=
  ["*", "/", "%", "<<", ">>", "&", "&^", "+", "-", "|", "^", "==", "!=", "<", "<=", ">", ">=",
    "&&", "||"].map String.toList

/-- The operators of assignments, a definition apart. -/
def assignmentOperators : List (List Char) :=
  ["=", "*=", "/=", "%=", "<<=", ">>=", "&=", "&^=", "+=", "-=", "|=", "^="].map String.toList

/-- The longest of the given operators at the front. -/
def operator? (operators : List (List Char)) (cs : List Char) : Option (List Char) :=
  operators.foldl (fun best op =>
    if op.isPrefixOf cs && (best.all fun b => b.length < op.length) then some op else best) none

end PinnedImports.Go
