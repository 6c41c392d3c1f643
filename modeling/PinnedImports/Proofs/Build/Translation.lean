import PinnedImports.Proofs.Build.Grammar
import PinnedImports.Proofs.Build.PlusBuild

/-!
# `+build` lines as one condition

A header of `+build` lines says the same as the one `//go:build` line into which they are translated:
the lines joined by `&&`, the options of a line by `||` and the terms of an option by `&&`, with
parentheses around each level (`allowsSource_translated`). Both sides come to the meaning of the lines,
the one by splitting them at blanks and commas, the other by deriving the condition.
-/

set_option autoImplicit false

namespace PinnedImports.Build

open Text Imports

/-! ## The translation -/

/-- Parts in parentheses, with an operator between each two of them. -/
def joined (operator : Token) : List (List Char) → List Char
  | [] => []
  | part :: parts =>
    '(' :: (part ++ parts.flatMap (fun other => ' ' :: (operator.text ++ ' ' :: other)) ++ [')'])

/-- The condition of an option. -/
def Choice.condition (choice : Choice) : List Char := joined .and (choice.terms.map Term.text)

/-- The condition of a `+build` line. -/
def PlusBuild.condition (line : PlusBuild) : List Char :=
  joined .or (line.choices.map Choice.condition)

/-- The condition of a header of `+build` lines. -/
def conditionOfLines (lines : List PlusBuild) : List Char :=
  joined .and (lines.map PlusBuild.condition)

/-! ## Reading the translation -/

/-- The text is an operand of conditions with the value. -/
def Spells (holds : String → Bool) (cs : List Char) (value : Bool) : Prop :=
  ∃ tokens c, Token.SplitsAhead cs tokens ∧ Condition.Derives .operand tokens c ∧
    c.eval holds = value

theorem spells_term (p : Platform) (term : Term) : Spells p.holds term.text (term.holds p) := by
  have htag := Token.SplitsAhead.tag term.tag_isTag
  rw [Term.text, Term.holds]
  cases term.negated with
  | false => exact ⟨_, _, htag, .tag term.tag, rfl⟩
  | true => exact ⟨_, _, htag.not, .not (.tag term.tag), rfl⟩

/-- How operands are chained by an operator: `whole` is what the grammar makes of such a chain, and
`combine` what the operator does to truth. -/
structure Chains (operator : Token) (build : Condition → Condition → Condition)
    (combine : Bool → Bool → Bool) (whole : List Token → Condition → Prop) : Prop where
  stands : ∀ rest, operator.Stands rest
  one : ∀ {tokens : List Token} {c : Condition},
    Condition.Derives .operand tokens c → whole tokens c
  more : ∀ {front back : List Token} {a b : Condition}, whole front a →
    Condition.Derives .operand back b → whole (front ++ operator :: back) (build a b)
  eval : ∀ (holds : String → Bool) (a b : Condition),
    (build a b).eval holds = combine (a.eval holds) (b.eval holds)
  closed : ∀ {tokens : List Token} {c : Condition},
    whole tokens c → Condition.Derives .disjunction tokens c

theorem chains_and : Chains .and .and (· && ·) (Condition.Derives .conjunction) where
  stands _ := trivial
  one := .conjunct
  more := .and
  eval _ _ _ := rfl
  closed := .disjunct

theorem chains_or : Chains .or .or (· || ·) (Condition.Derives .disjunction) where
  stands _ := trivial
  one h := .disjunct (.conjunct h)
  more hfront hback := .or hfront (.conjunct hback)
  eval _ _ _ := rfl
  closed h := h

section Joined

variable {holds : String → Bool} {operator : Token} {build : Condition → Condition → Condition}
  {combine : Bool → Bool → Bool} {whole : List Token → Condition → Prop}
  {α : Type} {text : α → List Char} {value : α → Bool}

/-- Parts behind a chain of operands go on with it. -/
theorem Chains.exists_chain (h : Chains operator build combine whole) {parts : List α}
    (hparts : ∀ part ∈ parts, Spells holds (text part) (value part)) {front : List Char}
    {tokens : List Token} {c : Condition} (hfront : Token.SplitsAhead front tokens)
    (hwhole : whole tokens c) :
    ∃ tokens' c', Token.SplitsAhead
        (front ++ parts.flatMap fun part => ' ' :: (operator.text ++ ' ' :: text part)) tokens' ∧
      whole tokens' c' ∧
      c'.eval holds = parts.foldl (fun v part => combine v (value part)) (c.eval holds) := by
  -- Operators associate to the left, so each part is added to the chain of all parts before it.
  induction parts generalizing front tokens c with
  | nil =>
    rw [List.flatMap_nil, List.append_nil]
    exact ⟨tokens, c, hfront, hwhole, rfl⟩
  | cons part parts ih =>
    obtain ⟨back, b, hback, hderives, hvalue⟩ := hparts part List.mem_cons_self
    have hrest : ∀ other ∈ parts, Spells holds (text other) (value other) :=
      fun other hother => hparts other (List.mem_cons_of_mem _ hother)
    obtain ⟨tokens', c', hsplits, hwhole', heval⟩ :=
      ih hrest (hfront.operator operator h.stands hback) (h.more hwhole hderives)
    refine ⟨tokens', c', ?_, hwhole', ?_⟩
    · rw [List.append_assoc] at hsplits
      exact hsplits
    · rw [heval, h.eval, hvalue, List.foldl_cons]

/-- **Parts in parentheses are an operand again**, with their values combined from the left. -/
theorem Chains.spells_joined (h : Chains operator build combine whole) {part : α} {parts : List α}
    (hparts : ∀ other ∈ part :: parts, Spells holds (text other) (value other)) :
    Spells holds (joined operator ((part :: parts).map text))
      (parts.foldl (fun v other => combine v (value other)) (value part)) := by
  obtain ⟨tokens, c, hsplits, hderives, hvalue⟩ := hparts part List.mem_cons_self
  have hrest : ∀ other ∈ parts, Spells holds (text other) (value other) :=
    fun other hother => hparts other (List.mem_cons_of_mem _ hother)
  obtain ⟨tokens', c', hsplits', hwhole, heval⟩ := h.exists_chain hrest hsplits (h.one hderives)
  refine ⟨_, c', ?_, .parens (h.closed hwhole), ?_⟩
  · rw [List.map_cons, joined, List.flatMap_map]
    exact hsplits'.parens
  · rw [heval, hvalue]

theorem foldl_and (v : Bool) (parts : List α) :
    parts.foldl (fun v part => v && value part) v = (v && parts.all value) := by
  induction parts generalizing v with
  | nil => simp
  | cons part parts ih => rw [List.foldl_cons, ih, List.all_cons, Bool.and_assoc]

theorem foldl_or (v : Bool) (parts : List α) :
    parts.foldl (fun v part => v || value part) v = (v || parts.any value) := by
  induction parts generalizing v with
  | nil => simp
  | cons part parts ih => rw [List.foldl_cons, ih, List.any_cons, Bool.or_assoc]

variable {parts : List α}

/-- Parts joined by `&&` are true when all of them are. -/
theorem spells_all (hne : parts ≠ [])
    (hparts : ∀ part ∈ parts, Spells holds (text part) (value part)) :
    Spells holds (joined .and (parts.map text)) (parts.all value) := by
  obtain ⟨part, parts, rfl⟩ := List.exists_cons_of_ne_nil hne
  rw [List.all_cons, ← foldl_and]
  exact chains_and.spells_joined hparts

/-- Parts joined by `||` are true when one of them is. -/
theorem spells_any (hne : parts ≠ [])
    (hparts : ∀ part ∈ parts, Spells holds (text part) (value part)) :
    Spells holds (joined .or (parts.map text)) (parts.any value) := by
  obtain ⟨part, parts, rfl⟩ := List.exists_cons_of_ne_nil hne
  rw [List.any_cons, ← foldl_or]
  exact chains_or.spells_joined hparts

end Joined

theorem spells_choice (p : Platform) (choice : Choice) :
    Spells p.holds choice.condition (choice.holds p) :=
  spells_all choice.terms_ne_nil fun term _ => spells_term p term

theorem spells_line (p : Platform) (line : PlusBuild) :
    Spells p.holds line.condition (line.holds p) :=
  spells_any line.choices_ne_nil fun choice _ => spells_choice p choice

theorem spells_lines (p : Platform) {lines : List PlusBuild} (h : lines ≠ []) :
    Spells p.holds (conditionOfLines lines) (lines.all (PlusBuild.holds p)) :=
  spells_all h fun line _ => spells_line p line

/-- What a spelled text means behind the `//go:build` of a line. -/
theorem Spells.satisfies {p : Platform} {cs : List Char} {value : Bool}
    (h : Spells p.holds cs value) : p.satisfies (' ' :: cs) = value := by
  obtain ⟨tokens, c, hsplits, hderives, heval⟩ := h
  have hparse : Condition.parse? (' ' :: cs) = some c :=
    Condition.parse?_eq_some_iff.2
      ⟨tokens, .blank (.inl rfl) hsplits.splits, .disjunct (.conjunct hderives)⟩
  rw [Platform.satisfies, hparse, Option.map_some, Option.getD_some, heval]

/-! ## The translated line -/

/-- A text that splits into tokens is on one line. -/
theorem newline_not_mem_of_splits {cs : List Char} {tokens : List Token}
    (h : Token.Splits cs tokens) : '\n' ∉ cs := by
  induction h with
  | done => simp
  | blank hc _ ih =>
    rw [List.mem_cons, not_or]
    refine ⟨?_, ih⟩
    rintro rfl
    revert hc
    decide
  | token token hstands _ ih =>
    rw [List.mem_append, not_or]
    refine ⟨?_, ih⟩
    cases token with
    | tag name =>
      intro hmem
      have hchar := (isTag_iff.1 hstands.1).2 _ hmem
      rw [isTagChar_eq_false (by decide)] at hchar
      exact Bool.false_ne_true hchar
    | not | and | or | openParen | closeParen => decide

/-- The `//go:build` line into which `+build` lines are translated. -/
def goBuildLine (lines : List PlusBuild) : List Char :=
  goBuildStart ++ ' ' :: conditionOfLines lines

theorem trimmed_goBuildLine {lines : List PlusBuild} (h : lines ≠ []) :
    Trimmed (goBuildLine lines) where
  one_line := by
    obtain ⟨tokens, c, hsplits, -⟩ := spells_lines Platform.host h
    have hline := newline_not_mem_of_splits hsplits.splits
    rw [goBuildLine, List.mem_append, List.mem_cons, not_or, not_or]
    exact ⟨by decide, by decide, hline⟩
  comment := ⟨"go:build".toList ++ ' ' :: conditionOfLines lines, rfl⟩
  last := by
    -- The condition ends with its parenthesis.
    obtain ⟨line, lines, rfl⟩ := List.exists_cons_of_ne_nil h
    intro c hc
    rw [goBuildLine, conditionOfLines, List.map_cons, joined, ← List.cons_append, ← List.cons_append,
      ← List.append_assoc, List.getLast?_append_of_ne_nil _ (List.cons_ne_nil _ _),
      List.getLast?_singleton, Option.mem_some_iff] at hc
    rw [← hc]
    decide

/-- Above code without constraint lines, the translated line is the header. -/
theorem constraintHeader_goBuildLine {lines : List PlusBuild} (hlines : lines ≠ [])
    {code : List Char} (hcode : constraintHeader (String.ofList code) = []) :
    constraintHeader (String.ofList (unlines [goBuildLine lines] ++ '\n' :: code)) =
      [goBuildLine lines] := by
  have htrimmed : ∀ text ∈ [goBuildLine lines], Trimmed text := by
    intro text htext
    rw [List.mem_singleton.1 htext]
    exact trimmed_goBuildLine hlines
  rw [constraintHeader_comments htrimmed, hcode, List.append_nil]

/-- **The translated line holds where each of the `+build` lines does.** -/
theorem allowsHeader_goBuildLine (p : Platform) {lines : List PlusBuild} (hlines : lines ≠ []) :
    p.allowsHeader [goBuildLine lines] = lines.all (PlusBuild.holds p) := by
  have hcondition : conditionOf? (goBuildLine lines) = some (' ' :: conditionOfLines lines) :=
    conditionOf?_eq_some.2 ⟨rfl, rfl⟩
  have hgoBuild : goBuildText? [goBuildLine lines] = some (' ' :: conditionOfLines lines) :=
    goBuildText?_of_plain List.any_nil hcondition []
  rw [Platform.allowsHeader, hgoBuild]
  exact (spells_lines p hlines).satisfies

/-- **Old and new constraint lines agree.** A text whose header consists of `+build` lines takes part in the
same builds as a text whose header is the `//go:build` line into which they are translated: where each
line has an option that holds, and an option holds with all of its terms. Above code without
constraint lines of its own, these lines are the header. -/
theorem allowsSource_translated (p : Platform) {lines : List PlusBuild} (hlines : lines ≠ []) :
    (∀ old new : String, constraintHeader old = lines.map PlusBuild.text →
      constraintHeader new = [goBuildLine lines] →
        p.allowsSource old = p.allowsSource new ∧
          p.allowsSource new = lines.all (PlusBuild.holds p)) ∧
    ∀ code : List Char, constraintHeader (String.ofList code) = [] →
      constraintHeader (String.ofList (unlines (lines.map PlusBuild.text) ++ '\n' :: code)) =
          lines.map PlusBuild.text ∧
        constraintHeader (String.ofList (unlines [goBuildLine lines] ++ '\n' :: code)) =
          [goBuildLine lines] := by
  constructor
  · intro old new hold hnew
    -- Either header holds where all of the lines do.
    have holdLines := allowsHeader_plusBuild p lines
    have hnewLine := allowsHeader_goBuildLine p hlines
    rw [Platform.allowsSource, Platform.allowsSource, hold, hnew]
    exact ⟨holdLines.trans hnewLine.symm, hnewLine⟩
  · intro code hcode
    exact ⟨constraintHeader_plusBuild lines hcode, constraintHeader_goBuildLine hlines hcode⟩

/-- An option behind one blank. -/
def Choice.ofTerms (terms : List Term) (h : terms ≠ []) : Choice where
  gap := [' ']
  terms := terms
  gap_ne_nil := List.cons_ne_nil _ _
  gap_ends := rfl
  gap_blank := List.forall_mem_singleton.2 (by decide)
  terms_ne_nil := h

/-- The line `// +build linux,!cgo darwin`. -/
def linuxOrDarwin : PlusBuild where
  choices :=
    [.ofTerms [⟨false, "linux", by decide⟩, ⟨true, "cgo", by decide⟩] (List.cons_ne_nil _ _),
     .ofTerms [⟨false, "darwin", by decide⟩] (List.cons_ne_nil _ _)]
  choices_ne_nil := List.cons_ne_nil _ _

/-- The line `// +build amd64`. -/
def onAmd64 : PlusBuild where
  choices := [.ofTerms [⟨false, "amd64", by decide⟩] (List.cons_ne_nil _ _)]
  choices_ne_nil := List.cons_ne_nil _ _

/-- Two lines that hold on 64-bit macOS, and their translation. -/
theorem two_lines_translated :
    goBuildLine [linuxOrDarwin, onAmd64] =
        "//go:build (((linux && !cgo) || (darwin)) && ((amd64)))".toList ∧
      [linuxOrDarwin, onAmd64] ≠ [] ∧
      constraintHeader (String.ofList "package p\n".toList) = [] ∧
      Platform.allowsSource ⟨"darwin", "amd64", []⟩ (String.ofList
        (unlines ([linuxOrDarwin, onAmd64].map PlusBuild.text) ++ '\n' :: "package p\n".toList)) =
          true := by
  have hlines : [linuxOrDarwin, onAmd64] ≠ [] := List.cons_ne_nil _ _
  have hcode : constraintHeader (String.ofList "package p\n".toList) = [] := by decide +kernel
  refine ⟨by decide, hlines, hcode, ?_⟩
  obtain ⟨hagree, hheaders⟩ := allowsSource_translated ⟨"darwin", "amd64", []⟩ hlines
  obtain ⟨hold, hnew⟩ := hheaders "package p\n".toList hcode
  obtain ⟨hsame, hmeaning⟩ := hagree _ _ hold hnew
  rw [hsame, hmeaning]
  decide

end PinnedImports.Build
