import Mathlib.Tactic.SplitIfs
import PinnedImports.Proofs.Json.Skipping

/-!
# Printed values are JSON

What is printed of a value is one of its texts (`spells_render`), so the text of a value is one JSON
document: the reader passes over it and stops behind it (`isDocument_line`).
-/

set_option autoImplicit false

namespace PinnedImports.Json

/-! ## Printed values -/

namespace Value

mutual

/-- The value that is printed. -/
def datum : Value → Datum
  | bool b => .bool b
  | number n => .integer n
  | string s => .string s
  | list es => .list (data es)
  | object ms => .object (memberData ms)

def data : List Value → List Datum
  | [] => []
  | e :: es => e.datum :: data es

def memberData : List (String × Value) → List (String × Datum)
  | [] => []
  | (name, v) :: ms => (name, v.datum) :: memberData ms

end

end Value

/-! ## Strings -/

theorem isHexDigit_hexDigit {n : Nat} (h : n < 16) : IsHexDigit (hexDigit n) n := ⟨h, .inl rfl⟩

theorem spellsChar_escapeChar (c : Char) : SpellsChar c (escapeChar c) := by
  unfold escapeChar
  split_ifs with hquote hslash hnewline hreturn htab hback hfeed hcontrol
  · subst hquote
    exact .letter (by decide)
  · subst hslash
    exact .letter (by decide)
  · subst hnewline
    exact .letter (by decide)
  · subst hreturn
    exact .letter (by decide)
  · subst htab
    exact .letter (by decide)
  · subst hback
    exact .letter (by decide)
  · subst hfeed
    exact .letter (by decide)
  · have hzero : IsHexDigit '0' 0 := isHexDigit_hexDigit (by decide)
    have hunit := SpellsUnit.mk hzero hzero (isHexDigit_hexDigit (n := c.toNat / 16) (by omega))
      (isHexDigit_hexDigit (Nat.mod_lt c.toNat (by decide)))
    have hvalue : ((0 * 16 + 0) * 16 + c.toNat / 16) * 16 + c.toNat % 16 = c.toNat := by omega
    rw [hvalue] at hunit
    exact .unit hunit
  · exact .plain hquote hslash hcontrol

theorem spellsString_quoted (s : String) : SpellsString s (quoted s).toList := by
  rw [quoted, String.toList_ofList]
  refine .mk ?_
  induction s.toList with
  | nil => exact .nil
  | cons c cs ih => exact .cons (spellsChar_escapeChar c) ih

/-! ## Blanks -/

theorem blank_space : Blank [' '] := by simp [Blank, isBlank]

theorem blank_lineBreak (depth : Nat) : Blank (lineBreak depth).toList := by
  intro c hc
  rw [lineBreak, String.toList_ofList, List.mem_cons, List.mem_replicate] at hc
  rcases hc with rfl | ⟨-, rfl⟩ <;> rfl

theorem spellsName_quoted (name : String) : SpellsName name ((quoted name).toList ++ [':']) :=
  .mk (spellsString_quoted name) blank_nil

/-! ## Texts -/

theorem colon_toList : ": ".toList = [':', ' '] := rfl

-- The recursion is that of printing: over values, the elements of a list and the members of an object.
mutual

/-- **What is printed of a value is one of its texts.** -/
theorem spells_render (depth : Nat) (v : Value) : Spells v.datum (v.render depth).toList := by
  match v with
  | .bool true => exact .bool true
  | .bool false => exact .bool false
  | .number n => exact .integer n
  | .string s => exact .string (spellsString_quoted s)
  | .list [] =>
    rw [Value.render, Value.datum, Value.data]
    exact .emptyList blank_nil
  | .list (e :: es) =>
    have hlist := Spells.list (blank_lineBreak (depth + 1)) (spells_render (depth + 1) e)
      (spells_renderMore (depth + 1) depth es)
    rw [Value.datum, Value.data]
    simp only [Value.render, String.toList_append, List.append_assoc] at hlist ⊢
    exact hlist
  | .object [] =>
    rw [Value.render, Value.datum, Value.memberData]
    exact .emptyObject blank_nil
  | .object ((name, v) :: ms) =>
    have hobject := Spells.object (blank_lineBreak (depth + 1)) (spellsName_quoted name) blank_space
      (spells_render (depth + 1) v) (spells_renderMembers (depth + 1) depth ms)
    rw [Value.datum, Value.memberData]
    simp only [Value.render, String.toList_append, List.append_assoc, colon_toList,
      List.cons_append, List.nil_append] at hobject ⊢
    exact hobject

theorem spells_renderMore (depth d : Nat) (es : List Value) :
    SpellsElements (Value.data es)
      ((Value.renderMore depth es).toList ++ (lineBreak d).toList) := by
  match es with
  | [] =>
    rw [Value.data]
    exact .nil (blank_lineBreak d)
  | e :: es =>
    have hmore := SpellsElements.cons blank_nil (blank_lineBreak depth) (spells_render depth e)
      (spells_renderMore depth d es)
    rw [Value.data]
    simp only [Value.renderMore, String.toList_append, List.append_assoc] at hmore ⊢
    exact hmore

theorem spells_renderMembers (depth d : Nat) (ms : List (String × Value)) :
    SpellsMembers (Value.memberData ms)
      ((Value.renderMembers depth ms).toList ++ (lineBreak d).toList) := by
  match ms with
  | [] =>
    rw [Value.memberData]
    exact .nil (blank_lineBreak d)
  | (name, v) :: ms =>
    have hmore := SpellsMembers.cons blank_nil (blank_lineBreak depth) (spellsName_quoted name)
      blank_space (spells_render depth v) (spells_renderMembers depth d ms)
    rw [Value.memberData]
    simp only [Value.renderMembers, String.toList_append, List.append_assoc, colon_toList,
      List.cons_append, List.nil_append] at hmore ⊢
    exact hmore

end

/-! ## Documents -/

/-- A text that holds one JSON value and blanks around it. -/
def IsDocument (text : String) : Prop := ofText skipValue text = .ok ()

/-- A text of a value is a document. -/
theorem IsText.isDocument {v : Datum} {text : String} (h : IsText v text) : IsDocument text :=
  ofText_of_reads (skipValue_reads v) h

/-- **The line of a value is one JSON document.** -/
theorem isDocument_line (v : Value) : IsDocument (v.text ++ "\n") := by
  have hbreak : Blank "\n".toList := by simp [Blank, isBlank]
  refine IsText.isDocument (v := v.datum) ⟨[], v.text.toList, "\n".toList, blank_nil,
    spells_render 0 v, hbreak, ?_⟩
  rw [String.toList_append, List.nil_append]

/-- Nothing is no document. -/
theorem not_isDocument_empty : ¬ IsDocument "" := by
  have hend : ofText skipValue "" = .error .endOfText := rfl
  rw [IsDocument, hend]
  simp

/-- What begins like no value is no document. -/
theorem not_isDocument {text : String} {c : Char} {cs : List Char} (htext : text.toList = c :: cs)
    (hblank : isBlank c = false) (hlist : c ≠ '[') (hobject : c ≠ '\x7b')
    (h : skipAtom c cs = .error .malformed) : ¬ IsDocument text := by
  have hskip : skipValue (c :: cs) = .error .malformed := by
    rw [skipValue, skipWithin_atom _ hblank hlist hobject, h]
    rfl
  have hmalformed : ofText skipValue text = .error .malformed := by
    rw [ofText, htext, hskip]
    rfl
  rw [IsDocument, hmalformed]
  simp

end PinnedImports.Json
