import PinnedImports.Text.Bytes

/-!
# Cursors and parsers

A cursor stands between what of a source text has been passed and what is left of it. It knows only
what is left: places are counted in bytes from the end of the text, so what a parser answers does
not depend on the text before it. A parser takes a cursor to a value and a cursor that stands at the
same place or further on; the proof that the second cursor is reached from the first is part of the
parser's type (`Cursor.Reaches`), so every place in a parse result is a place of the text. Parsers
fail without a message, because a text with a syntax error is only left out.
-/

set_option autoImplicit false

namespace PinnedImports.Go

/-- A place in a source text: the characters that are left and the number of their bytes. -/
structure Cursor where
  rest : List Char
  left : Nat
  left_eq : left = Text.byteLength rest

/-- Cursors with the same characters left are the same. -/
@[ext] theorem Cursor.ext_rest {a b : Cursor} (h : a.rest = b.rest) : a = b := by
  obtain ⟨rest, left, ha⟩ := a
  obtain ⟨rest', left', hb⟩ := b
  subst h ha hb
  rfl

/-- The cursor at the start of a text. -/
def Cursor.start (text : List Char) : Cursor := ⟨text, Text.byteLength text, rfl⟩

/-- The second cursor stands behind the first by some characters of the same text. -/
def Cursor.Reaches (a b : Cursor) : Prop := b.rest <:+ a.rest

theorem Cursor.Reaches.refl (a : Cursor) : a.Reaches a := List.suffix_refl a.rest

theorem Cursor.Reaches.trans {a b c : Cursor} (hab : a.Reaches b) (hbc : b.Reaches c) :
    a.Reaches c := List.IsSuffix.trans hbc hab

/-- The cursor behind the next `n` characters. -/
def Cursor.advance (c : Cursor) (n : Nat) : Cursor where
  rest := c.rest.drop n
  left := c.left - Text.byteLength (c.rest.take n)
  left_eq := by
    have h := Text.byteLength_append (c.rest.take n) (c.rest.drop n)
    rw [List.take_append_drop] at h
    rw [c.left_eq, h, Nat.add_sub_cancel_left]

theorem Cursor.reaches_advance (c : Cursor) (n : Nat) : c.Reaches (c.advance n) :=
  List.drop_suffix n c.rest

/-- A parser takes a cursor to a value and a cursor reached from it, or fails. -/
def Parser (α : Type) : Type :=
  (c : Cursor) → Option { r : α × Cursor // c.Reaches r.2 }

namespace Parser

variable {α β : Type}

/-- Answers without passing a character. -/
protected def pure (a : α) : Parser α := fun c => some ⟨(a, c), .refl c⟩

/-- One parser after another. -/
protected def bind (p : Parser α) (f : α → Parser β) : Parser β := fun c =>
  match p c with
  | none => none
  | some ⟨(a, mid), reached⟩ =>
    match f a mid with
    | none => none
    | some ⟨r, reached'⟩ => some ⟨r, reached.trans reached'⟩

instance : Monad Parser where
  pure := Parser.pure
  bind := Parser.bind

/-- The first of two parsers, or the second where the first fails. -/
protected def orElse (p : Parser α) (q : Unit → Parser α) : Parser α := fun c =>
  match p c with
  | some r => some r
  | none => q () c

instance : Alternative Parser where
  failure := fun _ => none
  orElse := Parser.orElse

/-- What a function says of the characters that are left; none is passed. -/
def look (f : List Char → α) : Parser α := fun c => some ⟨(f c.rest, c), .refl c⟩

/-- The number of bytes that are left. -/
def left : Parser Nat := fun c => some ⟨(c.left, c), .refl c⟩

/-- Passes as many characters as the measure says and answers with them; fails where the measure
has no answer. -/
def pass (measure : List Char → Option Nat) : Parser (List Char) := fun c =>
  match measure c.rest with
  | none => none
  | some n => some ⟨(c.rest.take n, c.advance n), c.reaches_advance n⟩

/-- The parser's value, or none where it fails. -/
def optional (p : Parser α) : Parser (Option α) := (some <$> p) <|> pure none

/-- The values of a parser taken as often as it succeeds, at most `n` times. -/
def upTo (p : Parser α) : Nat → Parser (List α)
  | 0 => pure []
  | n + 1 => (do return (← p) :: (← upTo p n)) <|> pure []

/-- The values of a parser taken as often as it succeeds. A parser that passes no character is
taken once more than characters are left. -/
def many (p : Parser α) : Parser (List α) := do p.upTo ((← look List.length) + 1)

/-- Goes on with `next` after `first`, and where that fails after `second`, provided that `second`
ends at another place. -/
def firstThatLeads (first second : Parser α) (next : α → Parser β) : Parser β := fun c =>
  match first c with
  | none => (second >>= next) c
  | some ⟨(a, mid), reached⟩ =>
    match next a mid with
    | some ⟨r, reached'⟩ => some ⟨r, reached.trans reached'⟩
    | none =>
      match second c with
      | none => none
      | some ⟨(b, mid'), reached'⟩ =>
        if mid'.left = mid.left then none
        else
          match next b mid' with
          | none => none
          | some ⟨r, reached''⟩ => some ⟨r, reached'.trans reached''⟩

/-- The value of a parser on a whole text. -/
def run? (p : Parser α) (text : List Char) : Option α := (p (Cursor.start text)).map (·.1.1)

end Parser

end PinnedImports.Go
