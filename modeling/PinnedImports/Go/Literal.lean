import PinnedImports.Text.Blank

/-!
# String literals of import paths

An import path is written between double quotes, where a backslash and a double quote are escaped
by a backslash, or between backquotes, where nothing is. `quote` writes the first form; `unquote?`
reads both and refuses every other escape.
-/

set_option autoImplicit false

namespace PinnedImports.Go

/-- A backslash before each backslash and each double quote. -/
def escape : List Char → List Char
  | [] => []
  | c :: rest =>
    if c = '\\' ∨ c = '"' then '\\' :: c :: escape rest else c :: escape rest

/-- Undoes `escape`; refuses an escape of any other character and a backslash at the end. A double
quote may stand alone. -/
def unescape? : List Char → Option (List Char)
  | [] => some []
  | '\\' :: c :: rest =>
    if c = '\\' ∨ c = '"' then (unescape? rest).map (c :: ·) else none
  | c :: rest => if c = '\\' then none else (unescape? rest).map (c :: ·)

/-- What stands between the given first and last character. -/
def between? (q : Char) : List Char → Option (List Char)
  | c :: rest => if c = q then Text.before? [q] rest else none
  | [] => none

/-- The text of a string literal: raw between backquotes, escaped between double quotes. -/
def unquote? (literal : String) : Option String :=
  match between? '`' literal.toList with
  | some raw => some (String.ofList raw)
  | none => ((between? '"' literal.toList).bind unescape?).map String.ofList

/-- An import path as a string literal between double quotes. -/
def quote (path : String) : String := String.ofList ('"' :: escape path.toList ++ ['"'])

theorem unescape?_escape (cs : List Char) : unescape? (escape cs) = some cs := by
  induction cs with
  | nil => rfl
  | cons c cs ih =>
    by_cases h : c = '\\' ∨ c = '"'
    · simp [escape, unescape?, h, ih]
    · have hc : c ≠ '\\' := fun e => h (.inl e)
      simp only [escape, h, if_false]
      rw [unescape?]
      · simp [hc, ih]
      · rintro - - rfl; exact absurd rfl hc

end PinnedImports.Go
