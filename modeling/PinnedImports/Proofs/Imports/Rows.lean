import PinnedImports.Proofs.Go.ImportDeclarations
import PinnedImports.Proofs.Imports.SpecLine

/-!
# Blocks with one specification to a line

Where each import of a block stands on lines of its own, the block is cut at these lines: a text
between, in which no import stands, then the lines of an import, and so on (`Rows`). All places that
rendering computes from the text of such a block are places in this cut, and the pieces between the
cuts are themselves lines of an import declaration.
-/

set_option autoImplicit false

namespace PinnedImports.Imports

open Text Go

/-! ## Terminators at the end of a line -/

theorem isBlank_of_isGap {c : Char} (h : isGap c = true) : isBlank c = true := by
  simp only [isGap, Bool.or_eq_true, Bool.and_eq_true, decide_eq_true_eq] at h
  rcases h with rfl | ⟨hlow, hhigh⟩
  · decide
  · have hlow' : ('\t').val.toNat ≤ c.val.toNat := UInt32.le_iff_toNat_le.1 hlow
    have hhigh' : c.val.toNat ≤ ('\r').val.toNat := UInt32.le_iff_toNat_le.1 hhigh
    have ht : ('\t').val.toNat = 9 := rfl
    have hr : ('\r').val.toNat = 13 := rfl
    have hc : c.toNat = c.val.toNat := rfl
    simp only [isBlank, Bool.or_eq_true, Bool.and_eq_true, decide_eq_true_eq]
    omega

theorem isBlank_of_isTerminator {c : Char} (h : isTerminator c = true) (hnl : c ≠ '\n') :
    isBlank c = false := by
  simp only [isTerminator, Bool.or_eq_true, decide_eq_true_eq] at h
  rcases h with (rfl | rfl) | rfl
  · exact absurd rfl hnl
  · decide
  · decide

/-- A line comment is the rest of its line. -/
theorem line_comment_on_line {body tail more rest : List Char} (hbody : '\n' ∉ body)
    (heq : '/' :: '/' :: body ++ '\n' :: rest = tail ++ more) (htail : '\n' ∉ tail)
    (hmore : ∀ c ∈ more.head?, c = '\n') : '/' :: '/' :: body = tail ∧ more = '\n' :: rest := by
  cases more with
  | nil =>
    refine absurd ?_ htail
    rw [List.append_nil] at heq
    rw [← heq]
    simp
  | cons c more =>
    obtain rfl := hmore c (by simp)
    have hline : '\n' ∉ '/' :: '/' :: body := by simpa using hbody
    obtain ⟨rfl, rfl⟩ := line_body_eq hline htail heq
    exact ⟨rfl, rfl⟩

/-- The rest of a line does not begin with a block comment. -/
theorem not_block_comment_on_line {tail more rest : List Char}
    (heq : '/' :: '*' :: rest = tail ++ more) (hbare : Bare tail)
    (hmore : ∀ c ∈ more.head?, c = '\n') : False := by
  cases tail with
  | nil =>
    rw [List.nil_append] at heq
    exact absurd (hmore '/' (by rw [← heq]; simp)) (by decide)
  | cons d tail =>
    rw [List.cons_append, List.cons.injEq] at heq
    obtain ⟨rfl, heq⟩ := heq
    -- A slash in it begins a line comment, so another slash follows.
    obtain ⟨-, hslash⟩ := hbare.slashes (by decide)
    cases tail with
    | nil => simp at hslash
    | cons e tail =>
      rw [List.cons_append, List.cons.injEq] at heq
      obtain ⟨rfl, -⟩ := heq
      simp at hslash

/-- A terminator behind which only a comment stands on its line is the line break. -/
theorem closing_on_line {closing : List Char} (h : Closing closing) :
    ∀ {tail more rest : List Char}, closing ++ rest = tail ++ more → '\n' ∉ tail → Bare tail →
      (∀ c ∈ more.head?, c = '\n') → closing = tail ++ ['\n'] ∧ more = '\n' :: rest := by
  induction h with
  | @mark c hc =>
    intro tail more rest heq htail hbare hmore
    cases tail with
    | nil =>
      rw [List.nil_append] at heq
      subst heq
      have hnl := hmore c (by simp)
      subst hnl
      exact ⟨rfl, rfl⟩
    | cons d tail =>
      rw [List.singleton_append, List.cons_append, List.cons.injEq] at heq
      obtain ⟨rfl, -⟩ := heq
      rw [List.mem_cons, not_or] at htail
      obtain ⟨hslash, -⟩ := hbare.slashes (isBlank_of_isTerminator hc (Ne.symm htail.1))
      exact absurd hslash (ne_slash_of_isTerminator hc)
  | @gap c closing hc hnl _ ih =>
    intro tail more rest heq htail hbare hmore
    cases tail with
    | nil =>
      rw [List.nil_append] at heq
      subst heq
      exact absurd (hmore c (by simp)) hnl
    | cons d tail =>
      rw [List.cons_append, List.cons_append, List.cons.injEq] at heq
      obtain ⟨rfl, heq⟩ := heq
      rw [List.mem_cons, not_or] at htail
      obtain ⟨rfl, rfl⟩ := ih heq htail.2 (hbare.of_blank (isBlank_of_isGap hc)) hmore
      exact ⟨rfl, rfl⟩
  | @line body hbody =>
    intro tail more rest heq htail _ hmore
    obtain ⟨rfl, rfl⟩ := line_comment_on_line hbody (by simpa using heq) htail hmore
    exact ⟨rfl, rfl⟩
  | @block body closing _ _ _ =>
    intro tail more rest heq _ hbare hmore
    exact (not_block_comment_on_line heq hbare hmore).elim

/-- Blanks behind which a token stands on a later line begin with the rest of their first line. -/
theorem blanks_on_line {blanks : List Char} (h : Blanks blanks) :
    ∀ {tail more rest : List Char} {c : Char}, isBlank c = false → isSolid c = true →
      blanks ++ c :: rest = tail ++ more → '\n' ∉ tail → Bare tail →
        (∀ c ∈ more.head?, c = '\n') →
          ∃ later, Closing (tail ++ ['\n']) ∧ Blanks later ∧ blanks = tail ++ '\n' :: later := by
  induction h with
  | nil =>
    intro tail more rest c hblank hsolid heq htail hbare hmore
    cases tail with
    | nil =>
      rw [List.nil_append, List.nil_append] at heq
      have hnl := hmore c (by rw [← heq]; simp)
      subst hnl
      exact absurd hblank (by decide)
    | cons d tail =>
      rw [List.nil_append, List.cons_append, List.cons.injEq] at heq
      obtain ⟨rfl, -⟩ := heq
      obtain ⟨hslash, -⟩ := hbare.slashes hblank
      exact absurd hslash (isSolid_iff.1 hsolid).2
  | @gap d blanks hd hblanks ih =>
    intro tail more rest c hblank hsolid heq htail hbare hmore
    cases tail with
    | nil =>
      rw [List.nil_append] at heq
      have hnl := hmore d (by rw [← heq]; simp)
      subst hnl
      exact ⟨blanks, .mark (by decide), hblanks, rfl⟩
    | cons e tail =>
      rw [List.cons_append, List.cons_append, List.cons.injEq] at heq
      obtain ⟨rfl, heq⟩ := heq
      rw [List.mem_cons, not_or] at htail
      obtain ⟨later, hclosing, hlater, rfl⟩ :=
        ih hblank hsolid heq htail.2 (hbare.of_blank (isBlank_of_isGap hd)) hmore
      exact ⟨later, .gap hd (Ne.symm htail.1) hclosing, hlater, rfl⟩
  | @line body blanks hbody hblanks _ =>
    intro tail more rest c _ _ heq htail _ hmore
    obtain ⟨rfl, -⟩ := line_comment_on_line hbody (by simpa using heq) htail hmore
    exact ⟨blanks, .line hbody, hblanks, rfl⟩
  | block _ _ _ =>
    intro tail more rest c _ _ heq _ hbare hmore
    exact (not_block_comment_on_line heq hbare hmore).elim

/-! ## The cut of a block -/

/-- A text whose last character is a line break or no blank. -/
def Anchored (text : List Char) : Prop :=
  ∃ before c, text = before ++ [c] ∧ (c = '\n' ∨ isBlank c = false)

/-- The import of a specification that stands `offset` bytes from the start of a text. -/
def importAt (s : SpecText) (offset : Nat) (path : String) (block : Option Nat) : Import where
  name := s.name.map String.ofList
  path := path
  literal := ⟨offset + byteLength s.head, offset + byteLength s.chars⟩
  spec := ⟨offset, offset + byteLength s.chars⟩
  block := block

/-- The lines of an import, with the text between them and the lines before. All of it stands behind
`before`. -/
structure RowText (before : List Char) where
  between : List Char
  above : List (List Char)
  comment : List (List Char)
  indent : List Char
  spec : SpecText
  path : String
  tail : List Char
  above_eq : before ++ between = unlines above ++ unlines comment
  isComment : ∀ l ∈ comment, '\n' ∉ l ∧ isCommentLine l = true
  indent_blank : ∀ c ∈ indent, isBlank c = true ∧ c ≠ '\n'
  blanks : Blanks indent
  unquoted : unquote? (String.ofList spec.literal) = some path
  tail_line : '\n' ∉ tail
  closes : Closing (tail ++ ['\n'])

namespace RowText

variable {before : List Char}

/-- The line of the import, with its line break. -/
def line (r : RowText before) : List Char :=
  r.indent ++ (r.spec.chars ++ (r.tail ++ ['\n']))

/-- All characters of the row. -/
def chars (r : RowText before) : List Char := r.between ++ r.line

/-- The import of the row. -/
def imported (r : RowText before) (block : Option Nat) : Import :=
  importAt r.spec (byteLength (before ++ r.between) + byteLength r.indent) r.path block

/-- The lines of the row. -/
def specLine (r : RowText before) : SpecLine where
  lead := byteLength (unlines r.above)
  start := byteLength (before ++ r.between)
  stop := byteLength (before ++ r.between) + byteLength (r.indent ++ (r.spec.chars ++ r.tail))

end RowText

/-- Specifications that import nothing: their literals are no import paths. -/
def Idle (specs : List ImportSpec) : Prop := ∀ v ∈ specs, unquote? v.text = none

/-- The inside of the parentheses of a block, cut at the lines of its imports. -/
inductive Rows (after : Nat) (block : Option Nat) :
    List Char → List (Import × SpecLine) → List Char → Prop
  | done {before cs : List Char} {specs : List ImportSpec} :
      Lines false after specs cs → Idle specs → Rows after block before [] cs
  | row {before rest : List Char} {specs : List ImportSpec} {rows : List (Import × SpecLine)}
      (r : RowText before) :
      Lines true (byteLength (r.line ++ rest) + after) specs r.between → Idle specs →
        Rows after block (before ++ r.chars) rows rest →
          Rows after block before ((r.imported block, r.specLine) :: rows) (r.chars ++ rest)

theorem anchored_closing (text : List Char) {closing : List Char} (h : Closing closing) :
    Anchored (text ++ closing) := by
  obtain ⟨gap, c, hc, rfl, -⟩ := h.exists_gap
  refine ⟨text ++ gap, c, by rw [List.append_assoc], ?_⟩
  by_cases hnl : c = '\n'
  · exact .inl hnl
  · exact .inr (isBlank_of_isTerminator hc hnl)

/-- The indent of a line lies behind the last character that is no blank. -/
theorem Anchored.indent {text gap lines indent : List Char} (h : Anchored text)
    (heq : text ++ gap = lines ++ indent) (hindent : ∀ c ∈ indent, isBlank c = true ∧ c ≠ '\n') :
    ∃ between, gap = between ++ indent ∧ lines = text ++ between := by
  rcases List.append_eq_append_iff.1 heq with ⟨between, hlines, hgap⟩ | ⟨between, htext, hgap⟩
  · exact ⟨between, hgap, hlines⟩
  · rcases between.eq_nil_or_concat with rfl | ⟨init, d, rfl⟩
    · rw [List.append_nil] at htext
      exact ⟨[], by rw [hgap]; rfl, by rw [htext, List.append_nil]⟩
    · -- The last character of the text would be one of the indent.
      obtain ⟨before, c, htext', hc⟩ := h
      rw [htext', List.concat_eq_append, ← List.append_assoc] at htext
      have hcd := (List.append_inj' htext rfl).2
      rw [List.cons.injEq] at hcd
      obtain ⟨hblank, hnl⟩ := hindent d (by rw [hgap]; simp)
      rw [hcd.1] at hc
      rcases hc with rfl | hc
      · exact absurd rfl hnl
      · rw [hblank] at hc
        simp at hc

/-- Blanks in front of the indent of a line are whole. -/
theorem blanks_before_indent {gap : List Char} (h : Blanks gap) :
    ∀ {between indent : List Char}, gap = between ++ indent →
      (∀ c ∈ indent, isBlank c = true ∧ c ≠ '\n') → Blanks between ∧ Blanks indent := by
  induction h with
  | nil =>
    intro between indent heq _
    obtain ⟨rfl, rfl⟩ := List.append_eq_nil_iff.1 heq.symm
    exact ⟨.nil, .nil⟩
  | @gap c cs hc hcs ih =>
    intro between indent heq hindent
    cases between with
    | nil =>
      rw [List.nil_append] at heq
      subst heq
      exact ⟨.nil, .gap hc hcs⟩
    | cons d between =>
      rw [List.cons_append, List.cons.injEq] at heq
      obtain ⟨rfl, heq⟩ := heq
      obtain ⟨hbetween, hblanks⟩ := ih heq hindent
      exact ⟨.gap hc hbetween, hblanks⟩
  | @line body cs hbody _ ih =>
    intro between indent heq hindent
    -- A line comment ends with a line break, so it cannot reach into the indent.
    have hsplit : ('/' :: '/' :: body ++ ['\n']) ++ cs = between ++ indent := by
      rw [← heq]
      simp
    rcases List.append_eq_append_iff.1 hsplit with ⟨rest, rfl, hcs⟩ | ⟨rest, hline, rfl⟩
    · obtain ⟨hrest, hblanks⟩ := ih hcs hindent
      exact ⟨by simpa using Blanks.line hbody hrest, hblanks⟩
    · rcases rest.eq_nil_or_concat with rfl | ⟨init, d, rfl⟩
      · rw [List.append_nil] at hline
        obtain ⟨hnil, hblanks⟩ := ih (List.nil_append _).symm hindent
        exact ⟨by rw [← hline]; simpa using Blanks.line hbody .nil, by simpa using hblanks⟩
      · rw [List.concat_eq_append, ← List.append_assoc] at hline
        have hnl := (List.append_inj' hline rfl).2
        rw [List.cons.injEq] at hnl
        exact absurd hnl.1.symm (hindent d (by simp)).2
  | @block body cs hbody _ ih =>
    intro between indent heq hindent
    -- A block comment ends with a slash, which is no blank.
    have hsplit : ('/' :: '*' :: body ++ ['*', '/']) ++ cs = between ++ indent := by
      rw [← heq]
      simp
    rcases List.append_eq_append_iff.1 hsplit with ⟨rest, rfl, hcs⟩ | ⟨rest, hline, rfl⟩
    · obtain ⟨hrest, hblanks⟩ := ih hcs hindent
      exact ⟨by simpa using Blanks.block hbody hrest, hblanks⟩
    · rcases rest.eq_nil_or_concat with rfl | ⟨init, d, rfl⟩
      · rw [List.append_nil] at hline
        obtain ⟨hnil, hblanks⟩ := ih (List.nil_append _).symm hindent
        exact ⟨by rw [← hline]; simpa using Blanks.block hbody .nil, by simpa using hblanks⟩
      · have hline' : ('/' :: '*' :: body ++ ['*']) ++ ['/'] = (between ++ init) ++ [d] := by
          rw [List.concat_eq_append] at hline
          rw [List.append_assoc between, ← hline]
          simp
        have hslash := (List.append_inj' hline' rfl).2
        rw [List.cons.injEq] at hslash
        have hblank := (hindent d (by simp)).1
        rw [← hslash.1] at hblank
        exact absurd hblank (by decide)

theorem import?_placed (s : SpecText) {n size offset : Nat}
    (h : size = offset + byteLength s.chars + n) (block : Option Nat) :
    (s.placed n).import? size block =
      (unquote? (String.ofList s.literal)).map fun path => importAt s offset path block := by
  have hchars : byteLength s.chars = byteLength s.head + byteLength s.literal := by
    rw [SpecText.chars, byteLength_append]
  have hstart : size - (byteLength s.literal + n) = offset + byteLength s.head := by omega
  have hstop : size - n = offset + byteLength s.chars := by omega
  have hspec : size - (byteLength s.chars + n) = offset := by omega
  rw [ImportSpec.import?]
  simp only [SpecText.placed, Span.turned, hstart, hstop, hspec]
  rfl

/-- The imports of specifications in a text of `size` bytes. -/
def importsOf (size : Nat) (block : Option Nat) (specs : List ImportSpec) : List Import :=
  specs.filterMap (·.import? size block)

theorem importsOf_nil (size : Nat) (block : Option Nat) : importsOf size block [] = [] := rfl

theorem importsOf_cons_none {size : Nat} {block : Option Nat} {v : ImportSpec}
    (h : v.import? size block = none) (specs : List ImportSpec) :
    importsOf size block (v :: specs) = importsOf size block specs := by
  simp only [importsOf, List.filterMap_cons, h]

theorem importsOf_cons_some {size : Nat} {block : Option Nat} {v : ImportSpec} {i : Import}
    (h : v.import? size block = some i) (specs : List ImportSpec) :
    importsOf size block (v :: specs) = i :: importsOf size block specs := by
  simp only [importsOf, List.filterMap_cons, h]

theorem specLines?_cons {text : List Char} {spec : Import} {specs : List Import}
    {rows : List (Import × SpecLine)} (h : specLines? text (spec :: specs) = some rows) :
    ∃ line others, specLine? text spec = some line ∧ specLines? text specs = some others ∧
      rows = (spec, line) :: others := by
  rw [specLines?] at h
  cases hline : specLine? text spec with
  | none => simp [hline] at h
  | some line =>
    cases hothers : specLines? text specs with
    | none => simp [hline, hothers] at h
    | some others =>
      rw [hline, hothers] at h
      exact ⟨line, others, rfl, rfl, (Option.some.inj h).symm⟩

theorem Idle.nil : Idle [] := fun _ hv => absurd hv List.not_mem_nil

theorem Idle.singleton {v : ImportSpec} (h : unquote? v.text = none) : Idle [v] := by
  intro w hw
  rw [List.mem_singleton.1 hw]
  exact h

theorem Idle.append {a b : List ImportSpec} (ha : Idle a) (hb : Idle b) : Idle (a ++ b) := by
  intro v hv
  rcases List.mem_append.1 hv with hv | hv
  · exact ha v hv
  · exact hb v hv

/-- The parts of the line of an import between parentheses make up a row. What stands behind the
specification has to be such that the rest of its line ends it; `P` is what else is known of that. -/
theorem exists_row {before between gap behind : List Char} {s : SpecText} {idle : List ImportSpec}
    {path : String} {block : Option Nat} {line : SpecLine} {P : List Char → List Char → Prop}
    (hidle : Lines true (byteLength (gap ++ (s.chars ++ behind))) idle between)
    (hanchored : Anchored (before ++ between)) (hgap : Blanks gap)
    (hpath : unquote? (String.ofList s.literal) = some path)
    (hline : specLine? (before ++ (between ++ (gap ++ (s.chars ++ behind))))
      (importAt s (byteLength (before ++ (between ++ gap))) path block) = some line)
    (hends : ∀ {tail more : List Char}, behind = tail ++ more → '\n' ∉ tail → Bare tail →
      (∀ c ∈ more.head?, c = '\n') → Closing (tail ++ ['\n']) ∧
        ∃ later, behind = tail ++ '\n' :: later ∧ P tail later) :
    ∃ (r : RowText before) (later : List Char), P r.tail later ∧
      importAt s (byteLength (before ++ (between ++ gap))) path block = r.imported block ∧
      line = r.specLine ∧ between ++ (gap ++ (s.chars ++ behind)) = r.chars ++ later ∧
      Lines true (byteLength (r.line ++ later)) idle r.between := by
  have hline' : specLine? ((before ++ (between ++ gap)) ++ (s.chars ++ behind))
      (importAt s (byteLength (before ++ (between ++ gap))) path block) = some line := by
    simpa only [List.append_assoc] using hline
  obtain ⟨⟨above, comment, indent, tail, more, hbefore, hbehind, hcomment, hindent, htail, hbare,
    hmore⟩, rfl⟩ := exists_lineParts rfl rfl hline'
  obtain ⟨hcloses, later, hbehind', hlater⟩ := hends hbehind htail hbare hmore
  have hcut : before ++ between ++ gap = unlines above ++ unlines comment ++ indent := by
    rw [List.append_assoc, hbefore, List.append_assoc]
  -- The blanks in front of the line belong to the text between, those on it are the indent.
  obtain ⟨blanks, rfl, hlines⟩ := hanchored.indent hcut hindent
  obtain ⟨hblanks, hindent'⟩ := blanks_before_indent hgap rfl hindent
  have hstart : byteLength (unlines above) + byteLength (unlines comment) =
      byteLength (before ++ (between ++ blanks)) := by
    rw [← byteLength_append, hlines, List.append_assoc]
  refine ⟨⟨between ++ blanks, above, comment, indent, s, path, tail,
    by rw [hlines, List.append_assoc], hcomment, hindent, hindent', hpath, htail, hcloses⟩,
    later, hlater, ?_, ?_, ?_, ?_⟩
  · simp only [RowText.imported, byteLength_append, Nat.add_assoc]
  · simp only [RowText.specLine, LineParts.line, hstart, byteLength_append, SpecLine.mk.injEq,
      true_and]
    omega
  · rw [hbehind']
    simp [RowText.chars, RowText.line]
  · have hall : Lines true (byteLength (indent ++ (s.chars ++ behind))) (idle ++ [])
        (between ++ blanks) := by
      refine Lines.append (hidle.of_eq ?_) (.done hblanks)
      simp only [byteLength_append]
      omega
    rw [List.append_nil, hbehind'] at hall
    simpa [RowText.line] using hall

/-- The place of a specification in a block, counted from the front and from the back. -/
theorem size_of_place {before between gap behind after : List Char} (s : SpecText) {size : Nat}
    (h : size = byteLength (before ++ (between ++ (gap ++ (s.chars ++ behind) ++ after)))) :
    size = byteLength (before ++ (between ++ gap)) + byteLength s.chars +
      (byteLength behind + byteLength after) := by
  rw [h]
  simp only [byteLength_append]
  omega

/-- The last line of a block that does not end with a terminator. -/
theorem rows_of_last {gap blanks rest : List Char} {s : SpecText} {block : Option Nat}
    (hgap : Blanks gap) (hblanks : Blanks blanks) {before between : List Char}
    {idle : List ImportSpec} {rows : List (Import × SpecLine)} {size : Nat}
    (hidle : Lines true (byteLength (gap ++ (s.chars ++ (blanks ++ ')' :: rest)))) idle between)
    (hnone : Idle idle) (hanchored : Anchored (before ++ between))
    (hsize : size = byteLength (before ++ (between ++ (gap ++ (s.chars ++ blanks) ++ ')' :: rest))))
    (hrows : specLines? (before ++ (between ++ (gap ++ (s.chars ++ blanks) ++ ')' :: rest)))
      (importsOf size block [s.placed (byteLength blanks + byteLength (')' :: rest))]) = some rows) :
    Rows (byteLength (')' :: rest)) block before rows (between ++ (gap ++ (s.chars ++ blanks))) := by
  have himport := import?_placed s (size_of_place s hsize) block
  cases hpath : unquote? (String.ofList s.literal) with
  | none =>
    rw [hpath, Option.map_none] at himport
    rw [importsOf_cons_none himport, importsOf_nil, specLines?, Option.some.injEq] at hrows
    subst hrows
    refine .done (Lines.append (hidle.of_eq ?_) (.last rfl hgap hblanks))
      (hnone.append (.singleton hpath))
    simp only [byteLength_append]
    omega
  | some path =>
    rw [hpath, Option.map_some] at himport
    rw [importsOf_cons_some himport, importsOf_nil] at hrows
    obtain ⟨line, others, hline, hothers, rfl⟩ := specLines?_cons hrows
    rw [specLines?, Option.some.injEq] at hothers
    subst hothers
    have hline' : specLine? (before ++ (between ++ (gap ++ (s.chars ++ (blanks ++ ')' :: rest)))))
        (importAt s (byteLength (before ++ (between ++ gap))) path block) = some line := by
      simpa only [List.append_assoc] using hline
    obtain ⟨r, _, ⟨later, hlater, rfl⟩, himported, hspecLine, htext, hbetween⟩ :=
      exists_row (P := fun _ after => ∃ later, Blanks later ∧ after = later ++ ')' :: rest)
        hidle hanchored hgap hpath hline' fun heq htail hbare hmore => by
          obtain ⟨later, hclosing, hlater, rfl⟩ :=
            blanks_on_line hblanks (by decide) isSolid_paren heq htail hbare hmore
          exact ⟨hclosing, _, by simp, later, hlater, rfl⟩
    have htext' : between ++ (gap ++ (s.chars ++ blanks)) = r.chars ++ later := by
      rw [← List.append_left_inj (')' :: rest)]
      simpa only [List.append_assoc] using htext
    rw [himported, hspecLine, htext']
    refine .row r (hbetween.of_eq ?_) hnone (.done (.done hlater) .nil)
    simp only [byteLength_append]
    omega

/-- A specification that imports nothing goes to the text between. -/
theorem lines_with_idle {between gap closing behind : List Char} {s : SpecText}
    {idle : List ImportSpec}
    (hidle : Lines true (byteLength (gap ++ (s.chars ++ (closing ++ behind)))) idle between)
    (hgap : Blanks gap) (hclosing : Closing closing) :
    Lines true (byteLength behind) (idle ++ [s.placed (byteLength (closing ++ behind))])
      (between ++ (gap ++ (s.chars ++ closing))) := by
  have hempty : Lines true (byteLength behind) [] [] := .done .nil
  have hline := Lines.line (s := s) hgap hclosing hempty
  rw [List.append_nil, ← byteLength_append] at hline
  refine Lines.append (hidle.of_eq ?_) hline
  simp only [byteLength_append]
  omega

/-- **A block whose imports all stand on lines of their own is cut at these lines.** -/
theorem rows_of_lines {cs rest : List Char} {specs : List ImportSpec} {block : Option Nat}
    (h : Lines false (byteLength (')' :: rest)) specs cs) :
    ∀ {before between : List Char} {idle : List ImportSpec} {rows : List (Import × SpecLine)}
      {size : Nat}, Lines true (byteLength (cs ++ ')' :: rest)) idle between → Idle idle →
        Anchored (before ++ between) →
          size = byteLength (before ++ (between ++ (cs ++ ')' :: rest))) →
            specLines? (before ++ (between ++ (cs ++ ')' :: rest)))
                (importsOf size block specs) = some rows →
              Rows (byteLength (')' :: rest)) block before rows (between ++ cs) := by
  -- What stands between the last import and the specification at hand is `between`.
  induction h with
  | @done blanks hblanks =>
    intro before between idle rows size hidle hnone _ _ hrows
    rw [importsOf_nil, specLines?, Option.some.injEq] at hrows
    subst hrows
    rw [byteLength_append] at hidle
    have hlines : Lines false (byteLength (')' :: rest)) (idle ++ []) (between ++ blanks) :=
      hidle.append (.done hblanks)
    rw [List.append_nil] at hlines
    exact .done hlines hnone
  | @last gap blanks s _ hgap hblanks =>
    intro before between idle rows size hidle hnone hanchored hsize hrows
    refine rows_of_last hgap hblanks (hidle.of_eq ?_) hnone hanchored hsize hrows
    simp only [byteLength_append, Nat.add_assoc]
  | @line gap closing cs s specs hgap hclosing _ ih =>
    intro before between idle rows size hidle hnone hanchored hsize hrows
    have hplace : byteLength (closing ++ cs) + byteLength (')' :: rest) =
        byteLength (closing ++ (cs ++ ')' :: rest)) := by
      simp only [byteLength_append, Nat.add_assoc]
    have himport := import?_placed s (size_of_place s hsize) block
    rw [hplace] at himport hrows
    replace hidle : Lines true (byteLength (gap ++ (s.chars ++ (closing ++ (cs ++ ')' :: rest)))))
        idle between := hidle.of_eq (by simp only [byteLength_append, Nat.add_assoc])
    cases hpath : unquote? (String.ofList s.literal) with
    | none =>
      rw [hpath, Option.map_none] at himport
      rw [importsOf_cons_none himport] at hrows
      have hanchored' : Anchored (before ++ (between ++ (gap ++ (s.chars ++ closing)))) := by
        have hend := anchored_closing (before ++ (between ++ (gap ++ s.chars))) hclosing
        simpa using hend
      have htext : between ++ (gap ++ (s.chars ++ (closing ++ cs))) =
          between ++ (gap ++ (s.chars ++ closing)) ++ cs := by simp
      have htotal : before ++ (between ++ (gap ++ (s.chars ++ (closing ++ cs)) ++ ')' :: rest)) =
          before ++ (between ++ (gap ++ (s.chars ++ closing)) ++ (cs ++ ')' :: rest)) := by simp
      rw [htotal] at hsize hrows
      rw [htext]
      exact ih (lines_with_idle hidle hgap hclosing) (hnone.append (.singleton hpath)) hanchored'
        hsize hrows
    | some path =>
      rw [hpath, Option.map_some] at himport
      rw [importsOf_cons_some himport] at hrows
      obtain ⟨line, others, hline, hothers, rfl⟩ := specLines?_cons hrows
      have hline' : specLine?
          (before ++ (between ++ (gap ++ (s.chars ++ (closing ++ (cs ++ ')' :: rest))))))
          (importAt s (byteLength (before ++ (between ++ gap))) path block) = some line := by
        simpa only [List.append_assoc] using hline
      obtain ⟨r, _, ⟨rfl, rfl⟩, himported, hspecLine, htext, hbetween⟩ :=
        exists_row (P := fun tail later => closing = tail ++ ['\n'] ∧ later = cs ++ ')' :: rest)
          hidle hanchored hgap hpath hline' fun heq htail hbare hmore => by
            obtain ⟨rfl, -⟩ := closing_on_line hclosing heq htail hbare hmore
            exact ⟨hclosing, _, by simp, rfl, rfl⟩
      have htext' : between ++ (gap ++ (s.chars ++ (r.tail ++ ['\n'] ++ cs))) = r.chars ++ cs := by
        rw [← List.append_left_inj (')' :: rest)]
        simpa only [List.append_assoc] using htext
      have htotal : before ++
          (between ++ (gap ++ (s.chars ++ (r.tail ++ ['\n'] ++ cs)) ++ ')' :: rest)) =
            before ++ r.chars ++ ([] ++ (cs ++ ')' :: rest)) := by
        rw [← List.append_assoc between, htext']
        simp
      rw [himported, hspecLine, htext']
      refine .row r (hbetween.of_eq ?_) hnone ?_
      · simp only [byteLength_append]
        omega
      · have hempty : Lines true (byteLength (cs ++ ')' :: rest)) [] [] := .done .nil
        have hend := anchored_closing (before ++ (r.between ++ (r.indent ++ r.spec.chars))) hclosing
        refine ih hempty .nil ?_ (hsize.trans (congrArg byteLength htotal)) ?_
        · simpa [RowText.chars, RowText.line] using hend
        · rw [← htotal]
          exact hothers

end PinnedImports.Imports
