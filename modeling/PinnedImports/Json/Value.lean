/-!
# JSON values and their indented text

A value is printed over several lines: every element and every member on a line of its own, two
blanks deeper than its bracket, and empty brackets on one line. Members keep the order in which they
are given.
-/

set_option autoImplicit false

namespace PinnedImports.Json

/-- A JSON value without fractional numbers. -/
inductive Value where
  | bool (b : Bool)
  | number (n : Int)
  | string (s : String)
  | list (elements : List Value)
  | object (members : List (String × Value))

/-- A hexadecimal digit in lower case. -/
def hexDigit (n : Nat) : Char := if n < 10 then Char.ofNat (48 + n) else Char.ofNat (87 + n)

/-- A character inside a string: quotes, backslashes and control characters are escaped. -/
def escapeChar (c : Char) : List Char :=
  if c = '"' then ['\\', '"']
  else if c = '\\' then ['\\', '\\']
  else if c = '\n' then ['\\', 'n']
  else if c = '\r' then ['\\', 'r']
  else if c = '\t' then ['\\', 't']
  else if c = '\x08' then ['\\', 'b']
  else if c = '\x0c' then ['\\', 'f']
  else if c.toNat < 0x20 then
    ['\\', 'u', '0', '0', hexDigit (c.toNat / 16), hexDigit (c.toNat % 16)]
  else [c]

/-- A string between quotes. -/
def quoted (s : String) : String :=
  String.ofList ('"' :: s.toList.flatMap escapeChar ++ ['"'])

/-- A line break and the blanks of a depth. -/
def lineBreak (depth : Nat) : String := String.ofList ('\n' :: List.replicate (2 * depth) ' ')

namespace Value

mutual

/-- The text of a value whose first line is already indented to `depth`. -/
def render (depth : Nat) : Value → String
  | bool b => if b then "true" else "false"
  | number n => toString n
  | string s => quoted s
  | list [] => "[]"
  | list (e :: es) =>
    "[" ++ lineBreak (depth + 1) ++ e.render (depth + 1) ++ renderMore (depth + 1) es ++
      lineBreak depth ++ "]"
  | object [] => "\x7b\x7d"
  | object ((name, v) :: ms) =>
    "\x7b" ++ lineBreak (depth + 1) ++ quoted name ++ ": " ++ v.render (depth + 1) ++
      renderMembers (depth + 1) ms ++ lineBreak depth ++ "\x7d"

/-- The elements after the first, each behind a comma and a line break. -/
def renderMore (depth : Nat) : List Value → String
  | [] => ""
  | e :: es => "," ++ lineBreak depth ++ e.render depth ++ renderMore depth es

/-- The members after the first, each behind a comma and a line break. -/
def renderMembers (depth : Nat) : List (String × Value) → String
  | [] => ""
  | (name, v) :: ms =>
    "," ++ lineBreak depth ++ quoted name ++ ": " ++ v.render depth ++ renderMembers depth ms

end

/-- The text of a value. -/
def text (v : Value) : String := v.render 0

end Value

end PinnedImports.Json
