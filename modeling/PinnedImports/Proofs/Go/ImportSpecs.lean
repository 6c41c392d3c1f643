import PinnedImports.Proofs.Go.Tokens

/-!
# How import specifications are laid out

`SpecText` is an import specification as it stands in a text. What the grammar reads as a
specification is such a text (`exists_specText`), and each such text is read again with the same
name and literal wherever it stands (`read_importSpec`). Neither depends on the text behind it.
-/

set_option autoImplicit false

namespace PinnedImports.Go

open Text Go.Parser Grammar

/-! ## Names -/

/-- A whole name of an import: a dot or a word. -/
def IsName (name : List Char) : Prop := name = ['.'] ∨ IsWord name

/-- The measure of the name of an import. -/
def nameLength : Measure := .longest [.exactly ['.'], wordLength]

theorem nameLength_dot (rest : List Char) : nameLength ('.' :: rest) = some 1 := by
  have hstart : isIdentifierStart '.' = false := by decide
  have hword : wordLength ('.' :: rest) = none := by
    rw [wordLength, hstart]
    rfl
  simp [nameLength, Measure.longest, Measure.exactly, hword]

theorem nameLength_of_ne {c : Char} (hc : c ≠ '.') (rest : List Char) :
    nameLength (c :: rest) = wordLength (c :: rest) := by
  have hdot : Measure.exactly ['.'] (c :: rest) = none := by
    simp [Measure.exactly, Ne.symm hc]
  cases hword : wordLength (c :: rest) with
  | none => simp [nameLength, Measure.longest, hdot, hword]
  | some n => simp [nameLength, Measure.longest, hdot, hword]

theorem nameLength_nil : nameLength [] = none := rfl

/-- The characters that a specification can start with. -/
def StartsSpec (c : Char) : Prop :=
  c = '.' ∨ isIdentifierStart c = true ∨ c = '"' ∨ c = '`'

theorem StartsSpec.isSolid {c : Char} (h : StartsSpec c) : Go.isSolid c = true := by
  rcases h with rfl | hstart | hquote
  · decide
  · exact isSolid_of_isIdentifierStart hstart
  · exact isSolid_of_isQuote hquote

theorem StartsSpec.isBlank {c : Char} (h : StartsSpec c) : Text.isBlank c = false := by
  rcases h with rfl | hstart | rfl | rfl
  · decide
  · exact isBlank_of_isIdentifierStart hstart
  · decide
  · decide

theorem StartsSpec.ne_paren {c : Char} (h : StartsSpec c) : c ≠ '(' := by
  rintro rfl
  rcases h with h | h | h | h
  all_goals exact absurd h (by decide)

theorem IsName.start {name : List Char} (h : IsName name) :
    ∃ c cs, name = c :: cs ∧ StartsSpec c := by
  rcases h with rfl | hword
  · exact ⟨'.', [], rfl, .inl rfl⟩
  · obtain ⟨c, cs, rfl, hc, -⟩ := hword
    exact ⟨c, cs, rfl, .inr (.inl hc)⟩

theorem nameLength_append {name : List Char} (h : IsName name) {rest : List Char}
    (hrest : EndsWord rest) : nameLength (name ++ rest) = some name.length := by
  rcases h with rfl | hword
  · exact nameLength_dot rest
  · obtain ⟨c, cs, rfl, hc, -⟩ := id hword
    have hdot : c ≠ '.' := by
      rintro rfl
      exact absurd hc (by decide)
    rw [List.cons_append, nameLength_of_ne hdot, ← List.cons_append, wordLength_append hword hrest]

theorem isName_of_nameLength {text : List Char} {n : Nat} (h : nameLength text = some n) :
    ∃ name rest, text = name ++ rest ∧ name.length = n ∧ IsName name := by
  cases text with
  | nil => simp [nameLength_nil] at h
  | cons c cs =>
    by_cases hc : c = '.'
    · subst hc
      rw [nameLength_dot, Option.some.injEq] at h
      exact ⟨['.'], cs, rfl, h, .inl rfl⟩
    · rw [nameLength_of_ne hc] at h
      obtain ⟨word, rest, heq, hlen, hword, -⟩ := isWord_of_wordLength h
      exact ⟨word, rest, heq, hlen, .inr hword⟩

theorem nameLength_quote {c : Char} (hc : c = '"' ∨ c = '`') (rest : List Char) :
    nameLength (c :: rest) = none := by
  have hdot : c ≠ '.' := by rcases hc with rfl | rfl <;> decide
  have hstart : isIdentifierStart c = false := by rcases hc with rfl | rfl <;> decide
  rw [nameLength_of_ne hdot, wordLength, hstart]
  rfl

/-! ## Specifications -/

/-- An import specification as it stands in a text: perhaps a name with blanks behind it, and a
string literal. -/
structure SpecText where
  name : Option (List Char)
  gap : List Char
  literal : List Char
  isName : ∀ n ∈ name, IsName n
  blanks : Blanks gap
  gap_eq : name = none → gap = []
  isLiteral : IsLiteral literal

namespace SpecText

/-- What stands before the literal. -/
def head (s : SpecText) : List Char := s.name.getD [] ++ s.gap

/-- The characters of a specification. -/
def chars (s : SpecText) : List Char := s.head ++ s.literal

/-- The specification with its places, where `after` bytes follow it. -/
def placed (s : SpecText) (after : Nat) : ImportSpec where
  name := s.name.map String.ofList
  text := String.ofList s.literal
  literal := ⟨byteLength s.literal + after, after⟩
  spec := ⟨byteLength s.chars + after, after⟩

/-- Up to a quote behind its head a specification starts as one, whatever follows. -/
theorem head_start (s : SpecText) {quote : Char} (hquote : quote = '"' ∨ quote = '`')
    (rest : List Char) : ∃ c cs, s.head ++ quote :: rest = c :: cs ∧ StartsSpec c := by
  rw [head]
  cases hname : s.name with
  | none =>
    rw [s.gap_eq hname]
    exact ⟨quote, rest, rfl, .inr (.inr hquote)⟩
  | some name =>
    obtain ⟨c, cs, rfl, hc⟩ := (s.isName name hname).start
    exact ⟨c, _, rfl, hc⟩

theorem chars_start (s : SpecText) : ∃ c cs, s.chars = c :: cs ∧ StartsSpec c := by
  obtain ⟨quote, rest, hliteral, hquote⟩ := s.isLiteral.head
  rw [chars, hliteral]
  exact s.head_start hquote rest

end SpecText

theorem afterGap_specText {blanks : List Char} (hblanks : Blanks blanks) (s : SpecText)
    (rest : List Char) : afterGap false (blanks ++ (s.chars ++ rest)) = s.chars ++ rest := by
  obtain ⟨c, cs, hchars, hc⟩ := s.chars_start
  rw [afterGap_append hblanks, hchars, List.cons_append, afterGap_solid false hc.isSolid]

theorem afterGap_literal {blanks literal : List Char} (hblanks : Blanks blanks)
    (hliteral : IsLiteral literal) (rest : List Char) :
    afterGap false (blanks ++ (literal ++ rest)) = literal ++ rest := by
  obtain ⟨c, cs, rfl, hc⟩ := hliteral.head
  rw [afterGap_append hblanks, List.cons_append, afterGap_solid false (isSolid_of_isQuote hc)]

theorem IsLiteral.endsWord {literal : List Char} (h : IsLiteral literal) (rest : List Char) :
    EndsWord (literal ++ rest) := by
  obtain ⟨c, cs, rfl, hc⟩ := h.head
  intro d hd
  rw [List.cons_append, List.head?_cons, Option.mem_some_iff] at hd
  rw [← hd]
  exact not_isIdentifierContinue_of_isQuote hc

namespace Parser

theorem read_importName (text : List Char) :
    importName.read text =
      (nameLength (afterGap false text)).map fun n =>
        ((afterGap false text).take n, (afterGap false text).drop n) :=
  read_lexeme nameLength text

/-- What is read of a specification once the gap before it is passed. -/
theorem read_importSpec_eq (text : List Char) :
    importSpec.read text =
      let head := ((nameLength (afterGap false (afterGap false text))).map fun n =>
        (some ((afterGap false (afterGap false text)).take n),
          (afterGap false (afterGap false text)).drop n)).getD (none, afterGap false text)
      ((lexeme stringLength).read (afterGap false head.2)).map fun r =>
        (⟨head.1.map String.ofList, String.ofList r.1,
          ⟨byteLength (afterGap false head.2), byteLength r.2⟩,
          ⟨byteLength (afterGap false text), byteLength r.2⟩⟩, r.2) := by
  rw [importSpec]
  simp only [read_bind, read_gap, read_left, Option.bind_some, read_optional, read_importName,
    Option.map_map, Function.comp_def, read_pure]
  cases (lexeme stringLength).read _ <;> rfl

/-- Where a quote stands behind the head of a specification, the specification is read exactly if a
string literal is. -/
theorem read_importSpec_head {blanks : List Char} (hblanks : Blanks blanks) (s : SpecText)
    {quote : Char} (hquote : quote = '"' ∨ quote = '`') (rest : List Char) :
    importSpec.read (blanks ++ (s.head ++ quote :: rest)) =
      (stringLength (quote :: rest)).map fun n =>
        (⟨s.name.map String.ofList, String.ofList ((quote :: rest).take n),
          ⟨byteLength (quote :: rest), byteLength ((quote :: rest).drop n)⟩,
          ⟨byteLength (s.head ++ quote :: rest), byteLength ((quote :: rest).drop n)⟩⟩,
          (quote :: rest).drop n) := by
  obtain ⟨c, cs, hchars, hc⟩ := s.head_start hquote rest
  have hagain : afterGap false (s.head ++ quote :: rest) = s.head ++ quote :: rest := by
    rw [hchars, afterGap_solid false hc.isSolid]
  have hsolid : afterGap false (quote :: rest) = quote :: rest :=
    afterGap_solid false (isSolid_of_isQuote hquote) rest
  rw [read_importSpec_eq, afterGap_append hblanks, hagain, hagain]
  cases hname : s.name with
  | none =>
    -- What stands there begins with a quote, which no name does.
    have hhead : s.head ++ quote :: rest = quote :: rest := by
      rw [SpecText.head, hname, s.gap_eq hname]
      rfl
    simp only [hhead, nameLength_quote hquote, Option.map_none, Option.getD_none, hsolid,
      read_lexeme, Option.map_map]
    rfl
  | some name =>
    -- The name ends at the gap or, where there is none, at the quote.
    have hends : EndsWord (s.gap ++ quote :: rest) := by
      apply EndsWord.blanks s.blanks
      intro d hd
      rw [List.head?_cons, Option.mem_some_iff] at hd
      rw [← hd]
      exact not_isIdentifierContinue_of_isQuote hquote
    have htext : s.head ++ quote :: rest = name ++ (s.gap ++ quote :: rest) := by
      rw [SpecText.head, hname]
      simp
    have hlen := nameLength_append (s.isName name hname) hends
    rw [← htext] at hlen
    have hdrop : (s.head ++ quote :: rest).drop name.length = s.gap ++ quote :: rest := by
      rw [htext, List.drop_left]
    have htake : (s.head ++ quote :: rest).take name.length = name := by
      rw [htext, List.take_left]
    have hgap : afterGap false (s.gap ++ quote :: rest) = quote :: rest := by
      rw [afterGap_append s.blanks, hsolid]
    simp only [hlen, Option.map_some, Option.getD_some, hdrop, htake, hgap, hsolid, read_lexeme,
      Option.map_map]
    rfl

/-- **A specification is read wherever it stands, whatever follows it.** -/
theorem read_importSpec {blanks : List Char} (hblanks : Blanks blanks) (s : SpecText)
    (rest : List Char) :
    importSpec.read (blanks ++ (s.chars ++ rest)) = some (s.placed (byteLength rest), rest) := by
  obtain ⟨quote, cs, hliteral, hquote⟩ := s.isLiteral.head
  have htoken := s.isLiteral rest
  have htext : s.chars ++ rest = s.head ++ quote :: (cs ++ rest) := by
    rw [SpecText.chars, hliteral]
    simp
  have hstring : quote :: (cs ++ rest) = s.literal ++ rest := by
    rw [hliteral]
    rfl
  rw [htext, read_importSpec_head hblanks s hquote, hstring, htoken, Option.map_some,
    List.take_left, List.drop_left]
  simp only [SpecText.placed, SpecText.chars, byteLength_append, Nat.add_assoc]

theorem read_importSpec_none {blanks : List Char} (hblanks : Blanks blanks) {c : Char}
    (hsolid : isSolid c = true) (hstart : ¬StartsSpec c) (rest : List Char) :
    importSpec.read (blanks ++ c :: rest) = none := by
  simp only [StartsSpec, not_or, Bool.not_eq_true] at hstart
  obtain ⟨hdot, hword, hquote, hraw⟩ := hstart
  have hself : afterGap false (c :: rest) = c :: rest := afterGap_solid false hsolid rest
  have hname : nameLength (c :: rest) = none := by
    rw [nameLength_of_ne hdot, wordLength, hword]
    rfl
  have hstring : stringLength (c :: rest) = none := by
    unfold stringLength
    split
    · rename_i heq
      exact absurd (List.cons.inj heq).1 hquote
    · rename_i heq
      exact absurd (List.cons.inj heq).1 hraw
    · rfl
  rw [read_importSpec_eq, afterGap_append hblanks, hself, hself, hname]
  simp [read_lexeme, hself, hstring]

theorem exists_literal {text literal rest : List Char}
    (h : (lexeme stringLength).read text = some (literal, rest)) :
    IsLiteral literal ∧ ∃ blanks, Blanks blanks ∧ text = blanks ++ (literal ++ rest) ∧
      afterGap false text = literal ++ rest := by
  rw [read_lexeme, Option.map_eq_some_iff] at h
  obtain ⟨n, hn, heq⟩ := h
  rw [Prod.mk.injEq] at heq
  obtain ⟨rfl, rfl⟩ := heq
  obtain ⟨-, hliteral⟩ := isLiteral_of_stringLength hn
  have hne : afterGap false text ≠ [] := by
    intro hnil
    rw [hnil] at hn
    simp [stringLength] at hn
  obtain ⟨blanks, hblanks, htext⟩ := exists_blanks hne
  rw [List.take_append_drop]
  exact ⟨hliteral, blanks, hblanks, htext, rfl⟩

theorem afterGap_afterGap {text : List Char} (h : afterGap false text ≠ []) :
    afterGap false (afterGap false text) = afterGap false text := by
  rw [afterGap, gapLength_afterGap h, List.drop_zero]

/-- **What is read as a specification is one, with the places it has in the text.** -/
theorem exists_specText {text rest : List Char} {spec : ImportSpec}
    (h : importSpec.read text = some (spec, rest)) :
    ∃ (blanks : List Char) (s : SpecText), Blanks blanks ∧ text = blanks ++ (s.chars ++ rest) ∧
      spec = s.placed (byteLength rest) := by
  rw [read_importSpec_eq] at h
  by_cases hne : afterGap false text = []
  · -- Only blanks are left, and neither a name nor a literal is read from them.
    rw [hne, show afterGap false [] = [] from rfl, nameLength_nil] at h
    simp [read_lexeme, show afterGap false [] = [] from rfl, stringLength] at h
  obtain ⟨blanks, hblanks, htext⟩ := exists_blanks hne
  rw [afterGap_afterGap hne] at h
  rw [Option.map_eq_some_iff] at h
  obtain ⟨⟨literal, last⟩, hread, heq⟩ := h
  rw [Prod.mk.injEq] at heq
  obtain ⟨rfl, rfl⟩ := heq
  cases hlen : nameLength (afterGap false text) with
  | none =>
    rw [hlen] at hread
    simp only [Option.map_none, Option.getD_none, afterGap_afterGap hne] at hread
    obtain ⟨hliteral, -, -, -, hafter⟩ := exists_literal hread
    rw [afterGap_afterGap hne] at hafter
    have hself := afterGap_afterGap hne
    rw [hafter] at hself
    refine ⟨blanks, ⟨none, [], literal, by simp, .nil, fun _ => rfl, hliteral⟩, hblanks, ?_, ?_⟩
    · rw [htext, hafter]
      rfl
    · simp [SpecText.placed, SpecText.chars, SpecText.head, hafter, hself]
  | some n =>
    obtain ⟨name, tail, hsplit, rfl, hname⟩ := isName_of_nameLength hlen
    rw [hlen] at hread
    simp only [Option.map_some, Option.getD_some, hsplit, List.drop_left] at hread
    have hgap : afterGap false tail ≠ [] := by
      intro hnil
      rw [hnil] at hread
      simp [read_lexeme, show afterGap false [] = [] from rfl, stringLength] at hread
    obtain ⟨hliteral, -, -, -, hafter⟩ := exists_literal hread
    rw [afterGap_afterGap hgap] at hafter
    obtain ⟨gap, hblanks', htail⟩ := exists_blanks hgap
    rw [hafter] at htail
    refine ⟨blanks, ⟨some name, gap, literal, by simpa using hname, hblanks', by simp, hliteral⟩,
      hblanks, ?_, ?_⟩
    · rw [htext, hsplit, htail]
      simp [SpecText.chars, SpecText.head]
    · simp [SpecText.placed, SpecText.chars, SpecText.head, hsplit, htail,
        afterGap_literal hblanks' hliteral, Nat.add_assoc]

end Parser

end PinnedImports.Go
