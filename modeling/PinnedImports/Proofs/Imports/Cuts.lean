import PinnedImports.Proofs.Imports.Frame

/-!
# Lines cut at their literals

An import that is read off a text has its specification there, with the string literal in it
(`Located`), and all imports of an accepted file are read off it (`Read.of_parse`). Where the
specification stands on lines of its own, the text is cut at these lines and at the literal
(`exists_rowCut`). The entry of the import is told by the pieces: its comment is the first one, and its
line the others, with the new literal in place of the old one.
-/

set_option autoImplicit false

namespace PinnedImports.Imports

open Text Go

/-! ## Where imports stand -/

/-- The specification of an import is a range of the text, and so is the string literal in it. -/
structure Located (text : List Char) (spec : Import) : Prop where
  start_le : spec.spec.start ≤ spec.literal.start
  literal_lt : spec.literal.start < spec.literal.stop
  stop_le : spec.literal.stop ≤ spec.spec.stop
  start_place : IsPlace 0 text spec.spec.start
  literal_start : IsPlace 0 text spec.literal.start
  literal_stop : IsPlace 0 text spec.literal.stop
  stop_place : IsPlace 0 text spec.spec.stop

/-- The import is read off a specification that stands in the text. -/
def Read (text : List Char) (i : Import) : Prop :=
  ∃ before s after path block,
    text = before ++ (SpecText.chars s ++ after) ∧ i = importAt s (byteLength before) path block

/-- The import is read off a specification that stands in the text, and its path off the literal of
that. -/
def Spelled (text : List Char) (i : Import) : Prop :=
  ∃ before s after path block,
    text = before ++ (SpecText.chars s ++ after) ∧ i = importAt s (byteLength before) path block ∧
      unquote? (String.ofList s.literal) = some path

namespace Read

variable {text : List Char}

/-- The string literal ends the specification. -/
theorem stop_eq {i : Import} (h : Read text i) : i.literal.stop = i.spec.stop := by
  obtain ⟨before, s, after, path, block, -, rfl⟩ := h
  rfl

theorem located {i : Import} (h : Read text i) : Located text i := by
  obtain ⟨before, s, after, path, block, htext, rfl⟩ := h
  obtain ⟨c, cs, hliteral, -⟩ := s.isLiteral.head
  have hpos : 0 < byteLength s.literal := byteLength_pos (by simp [hliteral])
  have hchars : byteLength s.chars = byteLength s.head + byteLength s.literal := by
    rw [SpecText.chars, byteLength_append]
  have hstop : IsPlace 0 text (byteLength before + byteLength s.chars) :=
    ⟨before ++ s.chars, after, by rw [htext, List.append_assoc],
      by rw [byteLength_append, Nat.zero_add]⟩
  have hhead : IsPlace 0 text (byteLength before + byteLength s.head) :=
    ⟨before ++ s.head, s.literal ++ after, by rw [htext, SpecText.chars]; simp,
      by rw [byteLength_append, Nat.zero_add]⟩
  have hstart : IsPlace 0 text (byteLength before) := ⟨before, _, htext, (Nat.zero_add _).symm⟩
  refine ⟨?_, ?_, Nat.le_refl _, hstart, hhead, hstop, hstop⟩
  · simp only [importAt]
    omega
  · simp only [importAt]
    omega

end Read

namespace Spelled

variable {text : List Char}

theorem read {i : Import} (h : Spelled text i) : Read text i := by
  obtain ⟨before, s, after, path, block, htext, hi, -⟩ := h
  exact ⟨before, s, after, path, block, htext, hi⟩

theorem of_placed {before after : List Char} {s : SpecText}
    (htext : text = before ++ (s.chars ++ after)) (block : Option Nat) :
    ∀ i ∈ importsOf (byteLength text) block [s.placed (byteLength after)], Spelled text i := by
  intro i hi
  have hsize : byteLength text = byteLength before + byteLength s.chars + byteLength after := by
    rw [htext, byteLength_append, byteLength_append, Nat.add_assoc]
  have himport := import?_placed s hsize block
  cases hpath : unquote? (String.ofList s.literal) with
  | none =>
    rw [hpath, Option.map_none] at himport
    rw [importsOf_cons_none himport, importsOf_nil] at hi
    exact absurd hi List.not_mem_nil
  | some path =>
    rw [hpath, Option.map_some] at himport
    rw [importsOf_cons_some himport, importsOf_nil, List.mem_singleton] at hi
    exact ⟨before, s, after, path, block, htext, hi, hpath⟩

theorem of_lines {whole : Bool} {n : Nat} {specs : List ImportSpec} {cs : List Char}
    (h : Lines whole n specs cs) (block : Option Nat) :
    ∀ {before after : List Char}, text = before ++ (cs ++ after) → n = byteLength after →
      ∀ i ∈ importsOf (byteLength text) block specs, Spelled text i := by
  induction h with
  | done =>
    intro before after _ _ i hi
    exact absurd hi List.not_mem_nil
  | @last gap blanks s _ _ _ =>
    intro before after htext hn
    have hcut : text = before ++ gap ++ (s.chars ++ (blanks ++ after)) := by
      rw [htext]
      simp
    rw [hn, ← byteLength_append]
    exact of_placed hcut block
  | @line gap closing cs s specs _ _ _ ih =>
    intro before after htext hn i hi
    have hcut : text = before ++ gap ++ (s.chars ++ (closing ++ cs ++ after)) := by
      rw [htext]
      simp
    have hrest : text = before ++ (gap ++ (s.chars ++ closing)) ++ (cs ++ after) := by
      rw [htext]
      simp
    -- For the other specifications the first line belongs to the text before them.
    rw [importsOf_cons, List.mem_append] at hi
    rcases hi with hi | hi
    · rw [hn, ← byteLength_append] at hi
      exact of_placed hcut block i hi
    · exact ih hrest hn i hi

/-- The imports of a declaration are read off the text that it stands in. -/
theorem of_found {range : Span} {d : Declared} (h : Found (byteLength text) text range d) :
    ∀ i ∈ d.imports, Spelled text i := by
  obtain ⟨before, chars, after, item, htext, hdecl, -, -, himports, -⟩ := h
  rw [himports]
  cases hdecl with
  | @single gap s _ _ =>
    have hcut : text = before ++ (importWord ++ gap) ++ (s.chars ++ after) := by
      rw [htext]
      simp
    exact of_placed hcut d.block
  | @block gap cs specs _ hlines =>
    have hcut : text = before ++ (importWord ++ (gap ++ ['('])) ++ (cs ++ ')' :: after) := by
      rw [htext]
      simp
    have hsize : (')' : Char).utf8Size = 1 := rfl
    apply of_lines hlines d.block hcut
    rw [byteLength_cons, hsize, Nat.add_comm]

/-- **Every import of an accepted file is spelled in it.** -/
theorem of_parse {source : Source} (h : Source.parse? text = some source) :
    ∀ i ∈ source.imports, Spelled text i := by
  obtain ⟨ds, hlaid, -, himports, -⟩ := exists_laid h
  intro i hi
  rw [himports] at hi
  obtain ⟨d, hd, hi⟩ := List.mem_flatMap.1 hi
  obtain ⟨p, hp, rfl⟩ := List.mem_map.1 hd
  obtain ⟨found⟩ := hlaid.found p hp
  exact of_found found i hi

end Spelled

/-- Every import of an accepted file is read off a specification in it. -/
theorem Read.of_parse {text : List Char} {source : Source} (h : Source.parse? text = some source) :
    ∀ i ∈ source.imports, Read text i := fun i hi => (Spelled.of_parse h i hi).read

/-! ## The pieces of a line -/

/-- A text cut at the lines of an import and at its string literal: the comment lines above it, what
stands in front of the literal on its own lines, the literal, and what stands behind that. -/
structure RowCut (text : List Char) (row : Import × SpecLine) where
  before : List Char
  comment : List Char
  head : List Char
  literal : List Char
  tail : List Char
  more : List Char
  text_eq : text = before ++ (comment ++ (head ++ (literal ++ (tail ++ more))))
  lead_eq : row.2.lead = byteLength before
  start_eq : row.2.start = row.2.lead + byteLength comment
  literal_start : row.1.literal.start = row.2.start + byteLength head
  literal_stop : row.1.literal.stop = row.1.literal.start + byteLength literal
  stop_eq : row.2.stop = row.1.literal.stop + byteLength tail
  literal_ne : literal ≠ []
  more_head : ∀ c ∈ more.head?, c = '\n'

/-- **A located import with lines of its own cuts the text.** -/
theorem exists_rowCut {text : List Char} {spec : Import} {line : SpecLine}
    (hlocated : Located text spec) (h : specLine? text spec = some line) :
    Nonempty (RowCut text (spec, line)) := by
  obtain ⟨hstart, hliteral, hstop, hstartPlace, hliteralStart, hliteralStop, hstopPlace⟩ := hlocated
  obtain ⟨before, chars, behind, rfl, -, hbefore, hchars⟩ :=
    exists_between (by omega) hstartPlace hstopPlace
  rw [Nat.zero_add] at hbefore
  rw [hbefore] at hchars
  -- Around the specification the text is cut at the line and at the comment lines above it.
  obtain ⟨parts, rfl⟩ := exists_lineParts hbefore hchars h
  -- The literal lies in the specification, which is cut at it.
  obtain ⟨front, literal, rest, hcut, hne, hfront, hrest⟩ :=
    exists_between hliteral hliteralStart hliteralStop
  rw [Nat.zero_add] at hfront
  obtain ⟨head, rfl, hinner⟩ := exists_append_of_byteLength_le hcut (by omega)
  rw [← List.append_assoc head] at hinner
  rw [byteLength_append] at hfront
  obtain ⟨tail, rfl, rfl⟩ := exists_append_of_byteLength_le hinner.symm
    (by rw [byteLength_append]; omega)
  have htext : before ++ (head ++ literal ++ tail ++ behind) =
      unlines parts.above ++ (unlines parts.comment ++ (parts.indent ++ head ++
        (literal ++ (tail ++ parts.tail ++ parts.more)))) := by
    refine (congrArg₂ (fun a b => a ++ (head ++ literal ++ tail ++ b)) parts.before_eq
      parts.behind_eq).trans ?_
    simp
  have hsize := congrArg byteLength parts.before_eq
  simp only [byteLength_append] at hsize hrest
  refine ⟨⟨unlines parts.above, unlines parts.comment, parts.indent ++ head, literal,
    tail ++ parts.tail, parts.more, htext, rfl, rfl, ?_, hrest, ?_, hne, parts.more_head⟩⟩
  · simp only [LineParts.line, byteLength_append]
    omega
  · simp only [LineParts.line, byteLength_append]
    omega

theorem specLine?_of_mem {text : List Char} {specs : List Import} :
    ∀ {rows : List (Import × SpecLine)}, specLines? text specs = some rows →
      ∀ row ∈ rows, row.1 ∈ specs ∧ specLine? text row.1 = some row.2 := by
  induction specs with
  | nil =>
    intro rows hrows
    rw [specLines?, Option.some.injEq] at hrows
    simp [← hrows]
  | cons spec specs ih =>
    intro rows hrows
    obtain ⟨line, others, hline, hothers, rfl⟩ := specLines?_cons hrows
    refine List.forall_mem_cons.2 ⟨⟨List.mem_cons_self .., hline⟩, fun row hrow => ?_⟩
    exact (ih hothers row hrow).imp_left (List.mem_cons_of_mem _)

theorem rowCut_of_specLines {text : List Char} {specs : List Import}
    {rows : List (Import × SpecLine)} (hlocated : ∀ spec ∈ specs, Located text spec)
    (hrows : specLines? text specs = some rows) : ∀ row ∈ rows, Nonempty (RowCut text row) := by
  intro row hrow
  obtain ⟨hspec, hline⟩ := specLine?_of_mem hrows row hrow
  exact exists_rowCut (hlocated row.1 hspec) hline

/-! ## Entries of cut lines -/

theorem slice_eq {text a b c : List Char} {start stop : Nat} (htext : text = a ++ (b ++ c))
    (hstart : start = byteLength a) (hstop : stop = start + byteLength b) :
    slice start stop text = b := by
  rw [htext, hstop, hstart, slice_append]

/-- The comment lines above an import. -/
def commentAbove (text : List Char) (row : Import × SpecLine) : List Char :=
  slice row.2.lead row.2.start text

theorem ofSpec_comment (text : List Char) (subs : Dictionary String) (row : Import × SpecLine) :
    (Entry.ofSpec text subs row).comment = commentAbove text row := by
  rw [Entry.ofSpec, commentAbove]
  cases subs.get? row.1.path <;> rfl

namespace RowCut

variable {text : List Char} {row : Import × SpecLine} (c : RowCut text row)

/-- The lines of the import as they stand in the text. -/
def lines : List Char := c.comment ++ (c.head ++ (c.literal ++ c.tail))

theorem text_eq_lines : text = c.before ++ (c.lines ++ c.more) :=
  c.text_eq.trans (by simp [lines])

theorem lines_ne_nil : c.lines ≠ [] := by
  have hne := c.literal_ne
  simp [lines, hne]

theorem stop_eq_lines : row.2.stop = byteLength (c.before ++ c.lines) := by
  rw [lines, c.stop_eq, c.literal_stop, c.literal_start, c.start_eq, c.lead_eq]
  simp only [byteLength_append]
  omega

theorem commentAbove_eq : commentAbove text row = c.comment :=
  slice_eq c.text_eq c.lead_eq c.start_eq

/-- What stands behind the literal on the line of the import. -/
theorem slice_tail : slice row.1.literal.stop row.2.stop text = c.tail := by
  apply slice_eq (a := c.before ++ (c.comment ++ (c.head ++ c.literal))) (c := c.more)
  · exact c.text_eq.trans (by simp)
  · rw [c.literal_stop, c.literal_start, c.start_eq, c.lead_eq]
    simp only [byteLength_append]
    omega
  · exact c.stop_eq

/-- The line of an entry keeps what stands around the literal. -/
theorem ofSpec_line (subs : Dictionary String) :
    (Entry.ofSpec text subs row).line =
      c.head ++ (((subs.get? row.1.path).map fun path => (quote path).toList).getD c.literal ++
        c.tail) := by
  have hstart : row.2.start = byteLength (c.before ++ c.comment) := by
    rw [c.start_eq, c.lead_eq, byteLength_append]
  cases hnew : subs.get? row.1.path with
  | none =>
    rw [Entry.ofSpec, hnew]
    apply slice_eq (a := c.before ++ c.comment) (c := c.more) _ hstart
    · rw [c.stop_eq, c.literal_stop, c.literal_start]
      simp only [byteLength_append, Option.map_none, Option.getD_none]
      omega
    · exact c.text_eq.trans (by simp)
  | some path =>
    have hhead : slice row.2.start row.1.literal.start text = c.head := by
      apply slice_eq (a := c.before ++ c.comment) (c := c.literal ++ (c.tail ++ c.more)) _ hstart
        c.literal_start
      exact c.text_eq.trans (by simp)
    rw [Entry.ofSpec, hnew, hhead, c.slice_tail]
    simp

end RowCut

/-- A row that stands in a text cuts it at its pieces. -/
theorem RowText.exists_rowCut {before : List Char} (r : RowText before) {text rest : List Char}
    (htext : text = before ++ (r.chars ++ rest)) (block : Option Nat) :
    ∃ c : RowCut text (r.imported block, r.specLine), c.comment = unlines r.comment ∧
      c.head = r.indent ++ r.spec.head ∧ c.literal = r.spec.literal ∧ c.tail = r.tail := by
  obtain ⟨d, cs, hliteral, -⟩ := r.spec.isLiteral.head
  have hcut : text = unlines r.above ++ (unlines r.comment ++
      (r.indent ++ r.spec.head ++ (r.spec.literal ++ (r.tail ++ '\n' :: rest)))) := by
    rw [htext, chars, line, List.append_assoc, ← List.append_assoc before, r.above_eq,
      SpecText.chars]
    simp
  refine ⟨⟨_, _, _, _, _, _, hcut, rfl, r.byteLength_above.symm, ?_, ?_, ?_, ?_, ?_⟩,
    rfl, rfl, rfl, rfl⟩
  · simp only [imported, importAt, specLine, byteLength_append]
    omega
  · simp only [imported, importAt, SpecText.chars, byteLength_append]
    omega
  · simp only [imported, importAt, specLine, byteLength_append]
    omega
  · simp [hliteral]
  · simp

end PinnedImports.Imports
