import PinnedImports.Text.Bytes

/-!
# Reading JSON text

Readers consume a character list from the front and stop at the first fault. A fault has one of
three causes: the text ends too early, it is not JSON, or it is JSON of another shape than asked
for. Which one is met depends on the place where reading stops, so a reader of a record looks at
the text once, from left to right, and `skipValue` passes over members nobody asked for.
-/

set_option autoImplicit false

namespace PinnedImports.Json

/-- Why a text could not be read. -/
inductive Fault where
  /-- The text ends inside a value. -/
  | endOfText
  /-- The text is not JSON. -/
  | malformed
  /-- A value is not of the shape that was asked for. -/
  | unexpectedShape
  deriving Repr, DecidableEq

/-- A reader takes its value off the front of the text. -/
abbrev Reader (α : Type) := List Char → Except Fault (α × List Char)

/-- The blanks of JSON. -/
def isBlank (c : Char) : Bool := c == ' ' || c == '\n' || c == '\t' || c == '\r'

/-- The text without blanks at the front. -/
def skipBlanks (cs : List Char) : List Char := cs.dropWhile isBlank

/-- The rest after an expected character; `absent` is the fault when another one stands there. -/
def expect (c : Char) (absent : Fault) : Reader Unit := fun cs =>
  match skipBlanks cs with
  | [] => .error .endOfText
  | d :: rest => if d = c then .ok ((), rest) else .error absent

/-- The rest of a fixed word. -/
def word : List Char → Reader Unit
  | [], cs => .ok ((), cs)
  | _ :: _, [] => .error .endOfText
  | c :: more, d :: rest => if c = d then word more rest else .error .malformed

/-! ## Strings -/

/-- The value of a hexadecimal digit. -/
def hexValue? (c : Char) : Option Nat :=
  if c.isDigit then some (c.toNat - '0'.toNat)
  else if 'a' ≤ c ∧ c ≤ 'f' then some (c.toNat - 'a'.toNat + 10)
  else if 'A' ≤ c ∧ c ≤ 'F' then some (c.toNat - 'A'.toNat + 10)
  else none

/-- Four hexadecimal digits. -/
def hexQuad : Reader Nat := fun cs =>
  match cs with
  | a :: b :: c :: d :: rest =>
    match hexValue? a, hexValue? b, hexValue? c, hexValue? d with
    | some a, some b, some c, some d => .ok (((a * 16 + b) * 16 + c) * 16 + d, rest)
    | _, _, _, _ => .error .malformed
  | short => if 4 ≤ Text.byteLength short then .error .malformed else .error .endOfText

/-- The character of a `\u` escape; two surrogates in a row make up one character. -/
def unicodeEscape : Reader Char := fun cs => do
  let (high, rest) ← hexQuad cs
  if 0xDC00 ≤ high ∧ high ≤ 0xDFFF then throw .malformed
  else if high < 0xD800 ∨ 0xDBFF < high then return (Char.ofNat high, rest)
  else
    match rest with
    | [] => throw .endOfText
    | '\\' :: [] => throw .endOfText
    | '\\' :: 'u' :: rest =>
      let (low, rest) ← hexQuad rest
      if low < 0xDC00 ∨ 0xDFFF < low then throw .malformed
      else return (Char.ofNat (0x10000 + (high - 0xD800) * 0x400 + (low - 0xDC00)), rest)
    | _ => throw .malformed

/-- The character that a one-letter escape stands for. -/
def simpleEscape? (c : Char) : Option Char :=
  match c with
  | '"' => some '"'
  | '\\' => some '\\'
  | '/' => some '/'
  | 'b' => some '\x08'
  | 'f' => some '\x0c'
  | 'n' => some '\n'
  | 'r' => some '\r'
  | 't' => some '\t'
  | _ => none

/-- The rest of a string after its opening quote. `escape` reads a `\u` escape; the first argument
bounds the number of characters. -/
def stringWithin (escape : Reader Char) : Nat → Reader (List Char)
  | 0, _ => .error .endOfText
  | _ + 1, [] => .error .endOfText
  | n + 1, c :: rest =>
    if c = '"' then .ok ([], rest)
    else if c = '\\' then
      match rest with
      | [] => .error .endOfText
      | 'u' :: rest => do
        let (c, rest) ← escape rest
        let (cs, rest) ← stringWithin escape n rest
        return (c :: cs, rest)
      | d :: rest =>
        match simpleEscape? d with
        | some c => do
          let (cs, rest) ← stringWithin escape n rest
          return (c :: cs, rest)
        | none => .error .malformed
    else if c.toNat < 0x20 then .error .malformed
    else do
      let (cs, rest) ← stringWithin escape n rest
      return (c :: cs, rest)

/-- The rest of a string after its opening quote. -/
def stringRest : Reader String := fun cs => do
  let (text, rest) ← stringWithin unicodeEscape (cs.length + 1) cs
  return (String.ofList text, rest)

/-- Passes over the rest of a string, whose `\u` escapes need not spell characters. -/
def skipString : Reader Unit := fun cs => do
  let (_, rest) ← stringWithin (fun cs => return ('?', (← hexQuad cs).2)) (cs.length + 1) cs
  return ((), rest)

/-! ## Numbers -/

/-- A number as it is written: with a fraction or an exponent, or without. -/
inductive Number where
  | integer (value : Int)
  | decimal
  deriving Repr, DecidableEq

/-- The number that decimal digits spell. -/
def digitsValue (digits : List Char) : Nat :=
  digits.foldl (fun n c => n * 10 + (c.toNat - '0'.toNat)) 0

/-- The least number that rounds to no finite double: half a unit above the largest of them. -/
def doubleBound : Nat := Nat.pow 2 1024 - Nat.pow 2 970

/-- Whether `value · 10 ^ exponent` is beyond the largest finite double. -/
def beyondDouble (value : Nat) (exponent : Int) : Bool :=
  if value = 0 then false
  else if exponent < 0 then
    -- The power is computed only where it does not exceed the value anyway.
    exponent.natAbs ≤ Nat.log2 value && value ≥ doubleBound * Nat.pow 10 exponent.natAbs
  else exponent > 308 || value * Nat.pow 10 exponent.natAbs ≥ doubleBound

/-- The number of values of 64 bits. -/
def wordSize : Nat := 0x10000000000000000

/-- The number of values of 64 bits without the sign. -/
def signedSize : Nat := 0x8000000000000000

/-- One digit or more; `short` is the fault at the end of the text. -/
def someDigits (short : Fault) : Reader (List Char) := fun cs =>
  match cs.takeWhile Char.isDigit with
  | [] => .error (if cs.isEmpty then short else .malformed)
  | digits => .ok (digits, cs.dropWhile Char.isDigit)

/-- The digits before the point: a zero alone or no zero first. -/
def wholeDigits (short : Fault) : Reader (List Char) := fun cs =>
  match cs with
  | '0' :: c :: rest => if c.isDigit then .error .malformed else .ok (['0'], c :: rest)
  | _ => someDigits short cs

/-- The digits after a point, if one stands there. -/
def fractionDigits (short : Fault) : Reader (Option (List Char)) := fun cs =>
  match cs with
  | '.' :: rest => do
    let (digits, rest) ← someDigits short rest
    return (some digits, rest)
  | _ => .ok (none, cs)

/-- The exponent, if one stands there. -/
def exponent (short : Fault) : Reader (Option Int) := fun cs =>
  match cs with
  | c :: rest =>
    if c = 'e' ∨ c = 'E' then
      match rest with
      | '-' :: rest => do
        let (digits, rest) ← someDigits short rest
        return (some (-(digitsValue digits : Int)), rest)
      | '+' :: rest => do
        let (digits, rest) ← someDigits short rest
        return (some (digitsValue digits : Int), rest)
      | _ => do
        let (digits, rest) ← someDigits short rest
        return (some (digitsValue digits : Int), rest)
    else .ok (none, c :: rest)
  | [] => .ok (none, [])

/-- The number after an optional minus sign. Zero with a minus sign, and whole numbers of more than
64 bits, count as decimals; a decimal beyond the doubles is malformed. -/
def number (negative : Bool) : Reader Number := fun cs => do
  let (whole, rest) ← wholeDigits .endOfText cs
  let (fraction, rest) ← fractionDigits .endOfText rest
  let (power, rest) ← exponent .endOfText rest
  let value := digitsValue (whole ++ fraction.getD [])
  -- The digits together, as if without a point, count units of this power of ten.
  let scale := power.getD 0 - ((fraction.getD []).length : Int)
  if fraction.isNone && power.isNone && value < wordSize then
    if negative then
      -- Minus zero is told from zero only among the decimals.
      if value = 0 ∨ signedSize < value then return (.decimal, rest)
      else return (.integer (-(value : Int)), rest)
    else return (.integer value, rest)
  else if beyondDouble value scale then throw .malformed
  else return (.decimal, rest)

/-- Passes over a number after an optional minus sign. -/
def skipNumber : Reader Unit := fun cs => do
  let (_, rest) ← wholeDigits .malformed cs
  let (_, rest) ← fractionDigits .malformed rest
  let (_, rest) ← exponent .malformed rest
  return ((), rest)

/-! ## Values of another shape -/

/-- The fault of a value that begins where another shape was asked for: the value itself may be
faulty first. -/
def otherShape {α : Type} : Reader α := fun cs =>
  match skipBlanks cs with
  | [] => .error .endOfText
  | c :: rest =>
    let fault {β : Type} (value : Except Fault β) : Except Fault (α × List Char) :=
      match value with
      | .ok _ => .error .unexpectedShape
      | .error f => .error f
    if c = 'n' then fault (word "ull".toList rest)
    else if c = 't' then fault (word "rue".toList rest)
    else if c = 'f' then fault (word "alse".toList rest)
    else if c = '-' then fault (number true rest)
    else if c.isDigit then fault (number false (c :: rest))
    else if c = '"' then fault (stringRest rest)
    else if c = '[' ∨ c = '{' then .error .unexpectedShape
    else .error .malformed

/-! ## Typed values -/

/-- A string. -/
def string : Reader String := fun cs =>
  match skipBlanks cs with
  | '"' :: rest => stringRest rest
  | other => otherShape other

/-- A truth value. -/
def bool : Reader Bool := fun cs =>
  match skipBlanks cs with
  | 't' :: rest => do
    let (_, rest) ← word "rue".toList rest
    return (true, rest)
  | 'f' :: rest => do
    let (_, rest) ← word "alse".toList rest
    return (false, rest)
  | other => otherShape other

/-- A whole number of 64 bits with sign. -/
def int64 : Reader Int := fun cs =>
  let fitting (n : Number × List Char) : Except Fault (Int × List Char) :=
    match n with
    | (.integer value, rest) =>
      if value < signedSize then .ok (value, rest) else .error .unexpectedShape
    | (.decimal, _) => .error .unexpectedShape
  match skipBlanks cs with
  | '-' :: rest => (number true rest).bind fitting
  | c :: rest =>
    if c.isDigit then (number false (c :: rest)).bind fitting else otherShape (c :: rest)
  | [] => .error .endOfText

/-! ## Passing over values -/

/-- The kind of an open bracket. -/
inductive Bracket where
  | list
  | object
  deriving Repr, DecidableEq

/-- What stands next while values are passed over. -/
inductive Place where
  /-- A value. -/
  | value
  /-- The first element of the innermost bracket or its end. -/
  | opened
  /-- A comma in the innermost bracket or its end. -/
  | closed

/-- Passes over a member's name and colon when the innermost bracket is an object. -/
def skipName (open_ : List Bracket) : Reader Unit := fun cs =>
  match open_ with
  | .object :: _ => do
    let (_, rest) ← expect '"' .malformed cs
    let (_, rest) ← skipString rest
    expect ':' .malformed rest
  | _ => .ok ((), cs)

/-- Passes over a value that is no bracket, of which `c` is the first character. -/
def skipAtom (c : Char) : Reader Unit := fun rest =>
  if c = 'n' then word "ull".toList rest
  else if c = 't' then word "rue".toList rest
  else if c = 'f' then word "alse".toList rest
  else if c = '-' then skipNumber rest
  else if c.isDigit then skipNumber (c :: rest)
  else if c = '"' then skipString rest
  else .error .malformed

/-- Passes over the rest of a value inside the open brackets, innermost first; the first argument
bounds the number of steps. -/
def skipWithin : Nat → List Bracket → Place → Reader Unit
  | 0, _, _, _ => .error .endOfText
  | n + 1, brackets, .value, cs =>
    match skipBlanks cs with
    | [] => .error .endOfText
    | '[' :: rest => skipWithin n (.list :: brackets) .opened rest
    | '{' :: rest => skipWithin n (.object :: brackets) .opened rest
    | c :: rest => do
      let (_, rest) ← skipAtom c rest
      if brackets.isEmpty then return ((), rest) else skipWithin n brackets .closed rest
  | n + 1, brackets, .opened, cs =>
    match brackets, skipBlanks cs with
    | [], rest => .ok ((), rest)
    | _ :: _, [] => .error .endOfText
    | bracket :: outer, c :: rest =>
      if c = (if bracket = .list then ']' else '}') then
        if outer.isEmpty then .ok ((), rest) else skipWithin n outer .closed rest
      else do
        let (_, rest) ← skipName brackets (c :: rest)
        skipWithin n brackets .value rest
  | n + 1, brackets, .closed, cs =>
    match brackets, skipBlanks cs with
    | [], rest => .ok ((), rest)
    | _ :: _, [] => .error .endOfText
    | bracket :: outer, c :: rest =>
      if c = (if bracket = .list then ']' else '}') then
        if outer.isEmpty then .ok ((), rest) else skipWithin n outer .closed rest
      else if c = ',' then do
        let (_, rest) ← skipName brackets rest
        skipWithin n brackets .value rest
      else .error .malformed

/-- Passes over a value of any shape. -/
def skipValue : Reader Unit := fun cs => skipWithin (3 * cs.length + 3) [] .value cs

/-! ## Lists and objects -/

/-- The elements of a list up to its end, folded into a state. `first` tells whether none has been
read; the first argument bounds their number. -/
def elementsWithin {σ : Type} (element : σ → Reader σ) : Nat → Bool → σ → Reader σ
  | 0, _, _, _ => .error .endOfText
  | n + 1, first, state, cs =>
    match skipBlanks cs with
    | [] => .error .endOfText
    | c :: rest =>
      if c = ']' then .ok (state, rest)
      else if first then do
        let (state, rest) ← element state (c :: rest)
        elementsWithin element n false state rest
      else if c = ',' then
        match skipBlanks rest with
        | [] => .error .endOfText
        | ']' :: _ => .error .malformed
        | rest => do
          let (state, rest) ← element state rest
          elementsWithin element n false state rest
      else .error .malformed

/-- A list of values. -/
def list {α : Type} (element : Reader α) : Reader (List α) := fun cs =>
  match skipBlanks cs with
  | '[' :: rest => do
    let collect (found : List α) : Reader (List α) := fun cs => do
      let (value, rest) ← element cs
      return (found ++ [value], rest)
    elementsWithin collect (rest.length + 1) true [] rest
  | other => otherShape other

/-- The members of an object up to its end, folded into a state. `member` is given the name before
it reads the colon and the value. -/
def membersWithin {σ : Type} (member : σ → String → Reader σ) : Nat → Bool → σ → Reader σ
  | 0, _, _, _ => .error .endOfText
  | n + 1, first, state, cs =>
    let named (rest : List Char) : Except Fault (σ × List Char) := do
      let (name, rest) ← stringRest rest
      let (state, rest) ← member state name rest
      membersWithin member n false state rest
    match skipBlanks cs with
    | [] => .error .endOfText
    | c :: rest =>
      if c = '}' then .ok (state, rest)
      else if first then if c = '"' then named rest else .error .malformed
      else if c = ',' then
        match skipBlanks rest with
        | [] => .error .endOfText
        | '"' :: rest => named rest
        | _ => .error .malformed
      else .error .malformed

/-- Reads a whole text: the value, and nothing but blanks after it. -/
def ofText {α : Type} (value : Reader α) (text : String) : Except Fault α := do
  let (result, rest) ← value text.toList
  if (skipBlanks rest).isEmpty then return result else throw .malformed

end PinnedImports.Json
