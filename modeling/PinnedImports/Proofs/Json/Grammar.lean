import Mathlib.Data.Nat.Digits.Defs
import PinnedImports.Json.Reader
import PinnedImports.Json.Value

/-!
# The texts of a JSON value

`Spells` says which texts a value has. Blanks may stand around values, names and marks, every
character of a string may be written as an escape, and a number that is not whole may have any
fraction and exponent. Of the reader only its blanks are used. A value begins with a character that
tells its kind (`Spells.head`) and ends where a number could not go on (`Stops`).
-/

set_option autoImplicit false

namespace PinnedImports.Json

/-- A JSON value. A number is a whole one without an exponent, or it is known by its literal. -/
inductive Datum where
  | null
  | bool (b : Bool)
  | integer (n : Int)
  | decimal (literal : String)
  | string (s : String)
  | list (elements : List Datum)
  | object (members : List (String × Datum))

/-- A text of blanks. -/
def Blank (cs : List Char) : Prop := ∀ c ∈ cs, isBlank c = true

theorem blank_nil : Blank [] := fun _ hc => absurd hc List.not_mem_nil

/-! ## Strings -/

/-- A hexadecimal digit in lower or upper case. -/
def IsHexDigit (c : Char) (n : Nat) : Prop :=
  n < 16 ∧ (c = hexDigit n ∨ c = (hexDigit n).toUpper)

/-- Four hexadecimal digits of a number. -/
inductive SpellsUnit : Nat → List Char → Prop
  | mk {a b c d : Char} {i j k l : Nat} (ha : IsHexDigit a i) (hb : IsHexDigit b j)
      (hc : IsHexDigit c k) (hd : IsHexDigit d l) :
      SpellsUnit (((i * 16 + j) * 16 + k) * 16 + l) [a, b, c, d]

/-- The letters that may stand behind a backslash, and the characters they stand for. -/
def escapes : List (Char × Char) :=
  [('"', '"'), ('\\', '\\'), ('/', '/'), ('b', '\x08'), ('f', '\x0c'), ('n', '\n'), ('r', '\r'),
    ('t', '\t')]

/-- The texts of a character in a string. -/
inductive SpellsChar : Char → List Char → Prop
  | plain {c : Char} (hquote : c ≠ '"') (hslash : c ≠ '\\') (hcontrol : ¬ c.toNat < 0x20) :
      SpellsChar c [c]
  | letter {c d : Char} (h : (d, c) ∈ escapes) : SpellsChar c ['\\', d]
  | unit {c : Char} {digits : List Char} (h : SpellsUnit c.toNat digits) :
      SpellsChar c ('\\' :: 'u' :: digits)
  /-- A character beyond four digits is written as two surrogates. -/
  | surrogates {c : Char} {high low : Nat} {first second : List Char}
      (hfirst : SpellsUnit (0xD800 + high) first) (hsecond : SpellsUnit (0xDC00 + low) second)
      (hhigh : high < 0x400) (hlow : low < 0x400)
      (hc : c.toNat = 0x10000 + high * 0x400 + low) :
      SpellsChar c ('\\' :: 'u' :: (first ++ '\\' :: 'u' :: second))

/-- The texts of some characters in a string. -/
inductive SpellsChars : List Char → List Char → Prop
  | nil : SpellsChars [] []
  | cons {c : Char} {cs text more : List Char} (hc : SpellsChar c text)
      (hcs : SpellsChars cs more) : SpellsChars (c :: cs) (text ++ more)

/-- The texts of a string, with its quotes. -/
inductive SpellsString : String → List Char → Prop
  | mk {s : String} {text : List Char} (h : SpellsChars s.toList text) :
      SpellsString s ('"' :: (text ++ ['"']))

/-! ## Numerals -/

/-- One digit or more. -/
def IsDigits (cs : List Char) : Prop := cs ≠ [] ∧ ∀ c ∈ cs, c.isDigit = true

/-- The digits before a point: a zero alone or no zero first. -/
def IsWhole (cs : List Char) : Prop := cs = ['0'] ∨ (IsDigits cs ∧ cs.head? ≠ some '0')

inductive IsFraction : List Char → Prop
  | absent : IsFraction []
  | present {digits : List Char} (h : IsDigits digits) : IsFraction ('.' :: digits)

inductive IsExponent : List Char → Prop
  | absent : IsExponent []
  | present {mark : Char} {sign digits : List Char} (hmark : mark = 'e' ∨ mark = 'E')
      (hsign : sign = [] ∨ sign = ['+'] ∨ sign = ['-']) (h : IsDigits digits) :
      IsExponent (mark :: (sign ++ digits))

/-- A number without its sign. -/
inductive IsUnsigned : List Char → Prop
  | mk {whole fraction exponent : List Char} (hwhole : IsWhole whole)
      (hfraction : IsFraction fraction) (hexponent : IsExponent exponent) :
      IsUnsigned (whole ++ (fraction ++ exponent))

inductive IsNumeral : List Char → Prop
  | positive {cs : List Char} (h : IsUnsigned cs) : IsNumeral cs
  | negative {cs : List Char} (h : IsUnsigned cs) : IsNumeral ('-' :: cs)

/-! ## Values -/

/-- The texts of a name, with the colon behind it. -/
inductive SpellsName : String → List Char → Prop
  | mk {name : String} {text behind : List Char} (hname : SpellsString name text)
      (hbehind : Blank behind) : SpellsName name (text ++ (behind ++ [':']))

mutual

/-- The texts of a value. -/
inductive Spells : Datum → List Char → Prop
  | null : Spells .null "null".toList
  | bool (b : Bool) : Spells (.bool b) (toString b).toList
  | integer (n : Int) : Spells (.integer n) (toString n).toList
  | decimal {literal : String} (h : IsNumeral literal.toList) :
      Spells (.decimal literal) literal.toList
  | string {s : String} {text : List Char} (h : SpellsString s text) : Spells (.string s) text
  | emptyList {blanks : List Char} (h : Blank blanks) :
      Spells (.list []) ('[' :: (blanks ++ [']']))
  | list {v : Datum} {vs : List Datum} {before text more : List Char} (hbefore : Blank before)
      (hv : Spells v text) (hmore : SpellsElements vs more) :
      Spells (.list (v :: vs)) ('[' :: (before ++ (text ++ (more ++ [']']))))
  | emptyObject {blanks : List Char} (h : Blank blanks) :
      Spells (.object []) ('\x7b' :: (blanks ++ ['\x7d']))
  | object {name : String} {v : Datum} {ms : List (String × Datum)}
      {before label between text more : List Char} (hbefore : Blank before)
      (hname : SpellsName name label) (hbetween : Blank between) (hv : Spells v text)
      (hmore : SpellsMembers ms more) :
      Spells (.object ((name, v) :: ms))
        ('\x7b' :: (before ++ (label ++ (between ++ (text ++ (more ++ ['\x7d']))))))

/-- The texts of the elements behind the first one, up to the end of the list. -/
inductive SpellsElements : List Datum → List Char → Prop
  | nil {blanks : List Char} (h : Blank blanks) : SpellsElements [] blanks
  | cons {v : Datum} {vs : List Datum} {behind before text more : List Char}
      (hbehind : Blank behind) (hbefore : Blank before) (hv : Spells v text)
      (hmore : SpellsElements vs more) :
      SpellsElements (v :: vs) (behind ++ ',' :: (before ++ (text ++ more)))

/-- The texts of the members behind the first one, up to the end of the object. -/
inductive SpellsMembers : List (String × Datum) → List Char → Prop
  | nil {blanks : List Char} (h : Blank blanks) : SpellsMembers [] blanks
  | cons {name : String} {v : Datum} {ms : List (String × Datum)}
      {behind before label between text more : List Char} (hbehind : Blank behind)
      (hbefore : Blank before) (hname : SpellsName name label) (hbetween : Blank between)
      (hv : Spells v text) (hmore : SpellsMembers ms more) :
      SpellsMembers ((name, v) :: ms)
        (behind ++ ',' :: (before ++ (label ++ (between ++ (text ++ more)))))

end

/-- The text holds the value, and nothing but blanks around it. -/
def IsText (v : Datum) (text : String) : Prop :=
  ∃ before inner behind, Blank before ∧ Spells v inner ∧ Blank behind ∧
    text.toList = before ++ (inner ++ behind)

/-! ## Whole numbers -/

/-- The digits of a number do not begin with a zero, but for zero itself. -/
theorem toDigits_head {n : Nat} (h : 0 < n) : ∃ c cs, Nat.toDigits 10 n = c :: cs ∧ c ≠ '0' := by
  -- The digits of a number are those of its tenth part and one more.
  induction n using Nat.strongRecOn with
  | _ n ih =>
    rw [Nat.toDigits_eq_if (by decide)]
    split
    · rename_i hlt
      have hall : ∀ n < 10, 0 < n → n.digitChar ≠ '0' := by decide
      exact ⟨n.digitChar, [], rfl, hall n hlt h⟩
    · obtain ⟨c, cs, hdigits, hc⟩ := ih (n / 10) (by omega) (by omega)
      exact ⟨c, cs ++ [(n % 10).digitChar], by rw [hdigits, List.cons_append], hc⟩

theorem isWhole_repr (n : Nat) : IsWhole n.repr.toList := by
  rw [Nat.toList_repr]
  rcases Nat.eq_zero_or_pos n with rfl | hn
  · exact .inl rfl
  · obtain ⟨c, cs, hdigits, hc⟩ := toDigits_head hn
    refine .inr ⟨⟨?_, fun c hc => Nat.isDigit_of_mem_toDigits (by decide) (by decide) hc⟩, ?_⟩
    · rw [hdigits]
      exact List.cons_ne_nil _ _
    · rw [hdigits, List.head?_cons]
      simpa using hc

theorem IsWhole.isUnsigned {cs : List Char} (h : IsWhole cs) : IsUnsigned cs := by
  have hmk := IsUnsigned.mk h .absent .absent
  simpa using hmk

/-- A whole number is a numeral. -/
theorem isNumeral_toString (n : Int) : IsNumeral (toString n).toList := by
  cases n with
  | ofNat n => exact .positive (isWhole_repr n).isUnsigned
  | negSucc n =>
    change IsNumeral ("-" ++ (n + 1).repr).toList
    rw [String.toList_append]
    exact .negative (isWhole_repr (n + 1)).isUnsigned

/-! ## Where a value begins -/

theorem IsWhole.head {cs : List Char} (h : IsWhole cs) :
    ∃ c tail, cs = c :: tail ∧ c.isDigit = true := by
  rcases h with rfl | ⟨⟨hne, hdigits⟩, -⟩
  · exact ⟨'0', [], rfl, rfl⟩
  · obtain ⟨c, tail, rfl⟩ := List.exists_cons_of_ne_nil hne
    exact ⟨c, tail, rfl, hdigits c List.mem_cons_self⟩

theorem IsUnsigned.head {cs : List Char} (h : IsUnsigned cs) :
    ∃ c tail, cs = c :: tail ∧ c.isDigit = true := by
  obtain ⟨hwhole, -, -⟩ := h
  obtain ⟨c, tail, rfl, hc⟩ := hwhole.head
  exact ⟨c, _, rfl, hc⟩

theorem ne_of_isDigit {c d : Char} (hc : c.isDigit = true) (hd : d.isDigit = false) : c ≠ d := by
  rintro rfl
  rw [hc] at hd
  exact absurd hd (by decide)

theorem isBlank_of_isDigit {c : Char} (h : c.isDigit = true) : isBlank c = false := by
  simp only [isBlank, Bool.or_eq_false_iff, beq_eq_false_iff_ne]
  exact ⟨⟨⟨ne_of_isDigit h rfl, ne_of_isDigit h rfl⟩, ne_of_isDigit h rfl⟩, ne_of_isDigit h rfl⟩

theorem IsNumeral.head {cs : List Char} (h : IsNumeral cs) :
    ∃ c tail, cs = c :: tail ∧ isBlank c = false ∧ c ≠ ']' := by
  cases h with
  | positive h =>
    obtain ⟨c, tail, rfl, hc⟩ := h.head
    exact ⟨c, tail, rfl, isBlank_of_isDigit hc, ne_of_isDigit hc rfl⟩
  | negative h => exact ⟨'-', _, rfl, rfl, by decide⟩

/-- The first character of a value is neither blank nor the end of a list. -/
theorem Spells.head {v : Datum} {text : List Char} (h : Spells v text) :
    ∃ c tail, text = c :: tail ∧ isBlank c = false ∧ c ≠ ']' := by
  cases h with
  | null => exact ⟨'n', _, rfl, rfl, by decide⟩
  | bool b =>
    cases b
    · exact ⟨'f', _, rfl, rfl, by decide⟩
    · exact ⟨'t', _, rfl, rfl, by decide⟩
  | integer n => exact (isNumeral_toString n).head
  | decimal h => exact h.head
  | string h =>
    cases h with
    | mk h => exact ⟨'"', _, rfl, rfl, by decide⟩
  | emptyList h => exact ⟨'[', _, rfl, rfl, by decide⟩
  | list _ _ _ => exact ⟨'[', _, rfl, rfl, by decide⟩
  | emptyObject h => exact ⟨'\x7b', _, rfl, rfl, by decide⟩
  | object _ _ _ _ _ => exact ⟨'\x7b', _, rfl, rfl, by decide⟩

theorem SpellsName.eq {name : String} {label : List Char} (h : SpellsName name label) :
    ∃ text behind, SpellsChars name.toList text ∧ Blank behind ∧
      label = '"' :: (text ++ '"' :: (behind ++ [':'])) := by
  obtain ⟨⟨htext⟩, hbehind⟩ := h
  exact ⟨_, _, htext, hbehind, by simp⟩

/-! ## Where a value ends -/

/-- What may stand behind a value. -/
def Stops : List Char → Prop
  | [] => True
  | c :: _ => isBlank c = true ∨ c = ',' ∨ c = ']' ∨ c = '\x7d'

theorem Blank.stops_append {blanks rest : List Char} (h : Blank blanks) (hrest : Stops rest) :
    Stops (blanks ++ rest) := by
  cases blanks with
  | nil => exact hrest
  | cons c cs => exact .inl (h c List.mem_cons_self)

theorem SpellsElements.stops {vs : List Datum} {more : List Char} (h : SpellsElements vs more)
    (rest : List Char) : Stops (more ++ ']' :: rest) := by
  cases h with
  | nil hblanks => exact hblanks.stops_append (.inr (.inr (.inl rfl)))
  | cons hbehind =>
    rw [List.append_assoc]
    exact hbehind.stops_append (.inr (.inl rfl))

theorem SpellsMembers.stops {ms : List (String × Datum)} {more : List Char}
    (h : SpellsMembers ms more) (rest : List Char) : Stops (more ++ '\x7d' :: rest) := by
  cases h with
  | nil hblanks => exact hblanks.stops_append (.inr (.inr (.inr rfl)))
  | cons hbehind =>
    rw [List.append_assoc]
    exact hbehind.stops_append (.inr (.inl rfl))

end PinnedImports.Json
