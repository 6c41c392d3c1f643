import PinnedImports.Proofs.Build.Directives
import PinnedImports.Proofs.Build.Header

/-!
# `+build` lines

A `+build` line is a list of options, and an option a list of terms (`PlusBuild`). The line is read as it
is meant: splitting it at blanks and commas gives back its options and their terms, so it holds where
one of its options does, and that where all of its terms do (`PlusBuild.allowsOptions_choices`). A header of
such lines holds where each of them does (`allowsHeader_plusBuild`).
-/

set_option autoImplicit false

namespace PinnedImports.Build

open Text Imports

/-! ## The lines -/

/-- A tag that has to hold, or one that has to fail. -/
structure Term where
  negated : Bool
  tag : String
  tag_isTag : isTag tag.toList = true

/-- An option of a `+build` line: its terms, and the blank characters in front of it, of which the first
is a blank or a tab. -/
structure Choice where
  gap : List Char
  terms : List Term
  gap_ne_nil : gap ≠ []
  gap_ends : endsDirective gap = true
  gap_blank : ∀ c ∈ gap, isBlank c = true ∧ c ≠ '\n'
  terms_ne_nil : terms ≠ []

/-- A `+build` line with its options. -/
structure PlusBuild where
  choices : List Choice
  choices_ne_nil : choices ≠ []

namespace Term

/-- A term as it is written. -/
def text (term : Term) : List Char :=
  if term.negated then '!' :: term.tag.toList else term.tag.toList

/-- Whether a term is satisfied. -/
def holds (p : Platform) (term : Term) : Bool :=
  if term.negated then !p.holds term.tag else p.holds term.tag

end Term

namespace Choice

/-- The terms of an option as they are written. -/
def text (choice : Choice) : List Char := [','].intercalate (choice.terms.map Term.text)

/-- Whether an option is satisfied: all of its terms are. -/
def holds (p : Platform) (choice : Choice) : Bool := choice.terms.all (Term.holds p)

end Choice

namespace PlusBuild

/-- A `+build` line as it is written. -/
def text (line : PlusBuild) : List Char :=
  "// +build".toList ++ line.choices.flatMap fun choice => choice.gap ++ choice.text

/-- Whether a `+build` line is satisfied: one of its options is. -/
def holds (p : Platform) (line : PlusBuild) : Bool := line.choices.any (Choice.holds p)

end PlusBuild

/-! ## Reading the lines -/

/-- No tag character is blank, not even one beyond ASCII. -/
theorem isBlank_of_isTagChar {c : Char} (h : isTagChar c = true) : isBlank c = false := by
  have htable : ∀ n ∈ Go.blanksBeyondAscii,
      128 ≤ n ∧ alphanumericBeyondAscii.holds n = false := by decide +kernel
  have hascii : ∀ n ≤ 32, (Char.ofNat n).isAlphanum = false := by decide
  by_contra hblank
  rw [Bool.not_eq_false] at hblank
  have hsign : (c == '_' || c == '.') = false := by
    rw [Bool.or_eq_false_iff, beq_eq_false_iff_ne, beq_eq_false_iff_ne]
    constructor
    all_goals
      rintro rfl
      exact absurd hblank (by decide)
  rw [isTagChar, Bool.or_assoc, hsign, Bool.or_false, isAlphanumeric] at h
  rcases Go.toNat_of_isBlank hblank with hle | hmem
  · rw [if_pos (by omega), ← Char.ofNat_toNat c, hascii _ hle] at h
    exact Bool.false_ne_true h
  · obtain ⟨hge, hholds⟩ := htable _ hmem
    rw [if_neg (by omega), hholds] at h
    exact Bool.false_ne_true h

theorem words_append_blank {c : Char} (hc : isBlank c = true) (front rest : List Char) :
    words (front ++ c :: rest) = words front ++ words rest := by
  simp only [words, split_eq_splitOnP]
  rw [List.splitOnP_append_cons _ _ hc, List.filter_append]

theorem words_blanks {gap : List Char} (h : ∀ c ∈ gap, isBlank c = true) (rest : List Char) :
    words (gap ++ rest) = words rest := by
  induction gap with
  | nil => rfl
  | cons c gap ih =>
    have hfirst := words_append_blank (h c List.mem_cons_self) [] (gap ++ rest)
    rw [List.nil_append] at hfirst
    rw [List.cons_append, hfirst, ih fun d hd => h d (List.mem_cons_of_mem _ hd)]
    rfl

theorem words_word {word : List Char} (hne : word ≠ [])
    (h : ∀ c ∈ word, isBlank c = false) : words word = [word] := by
  rw [words, split_eq_splitOnP, List.splitOnP_eq_singleton h]
  simp [hne]

/-- Characters of a list that is joined are those of its parts and of what stands between them. -/
theorem forall_mem_intercalate {P : Char → Prop} {between : List Char} {parts : List (List Char)}
    (hbetween : ∀ c ∈ between, P c) (hparts : ∀ part ∈ parts, ∀ c ∈ part, P c) :
    ∀ c ∈ between.intercalate parts, P c := by
  induction parts with
  | nil => simp
  | cons part parts ih =>
    have hrest := ih fun other hother => hparts other (List.mem_cons_of_mem _ hother)
    cases parts with
    | nil =>
      rw [List.intercalate_singleton]
      exact hparts part List.mem_cons_self
    | cons second parts =>
      intro c hc
      rw [List.intercalate_cons_cons, List.mem_append, List.mem_append] at hc
      rcases hc with (hc | hc) | hc
      · exact hparts part List.mem_cons_self c hc
      · exact hbetween c hc
      · exact hrest c hc

namespace Term

theorem isTagChar_of_mem {term : Term} {c : Char} (h : c ∈ term.tag.toList) :
    isTagChar c = true := (isTag_iff.1 term.tag_isTag).2 c h

/-- No term holds a blank or a comma. -/
theorem plain_of_mem_text {term : Term} {c : Char} (h : c ∈ term.text) :
    isBlank c = false ∧ c ≠ ',' := by
  have htag : c ∈ term.tag.toList → isBlank c = false ∧ c ≠ ',' := by
    intro hmem
    refine ⟨isBlank_of_isTagChar (isTagChar_of_mem hmem), ?_⟩
    rintro rfl
    have hcomma := isTagChar_of_mem hmem
    rw [isTagChar_eq_false (by decide)] at hcomma
    exact Bool.false_ne_true hcomma
  rw [text] at h
  split at h
  · rcases List.mem_cons.1 h with rfl | hmem
    · decide
    · exact htag hmem
  · exact htag h

theorem text_ne_nil (term : Term) : term.text ≠ [] := by
  rw [text]
  split
  · exact List.cons_ne_nil _ _
  · exact (isTag_iff.1 term.tag_isTag).1

/-- **A term is read as it is meant.** -/
theorem allowsTerm_text (p : Platform) (term : Term) :
    p.allowsTerm term.text = term.holds p := by
  rw [Platform.allowsTerm, text, holds]
  cases term.negated with
  | true =>
    have hsome : after? ['!'] ('!' :: term.tag.toList) = some term.tag.toList :=
      after?_eq_some.2 rfl
    rw [if_pos rfl, if_pos rfl, hsome]
    simp only [term.tag_isTag, Bool.true_and, String.ofList_toList]
  | false =>
    -- A tag does not begin with an exclamation mark.
    have hnone : after? ['!'] term.tag.toList = none := by
      rw [Option.eq_none_iff_forall_ne_some]
      intro rest hrest
      have hmem : '!' ∈ term.tag.toList := by simp [after?_eq_some.1 hrest]
      have hmark := isTagChar_of_mem hmem
      rw [isTagChar_eq_false (by decide)] at hmark
      exact Bool.false_ne_true hmark
    rw [if_neg Bool.false_ne_true, if_neg Bool.false_ne_true, hnone]
    simp only [term.tag_isTag, Bool.true_and, String.ofList_toList]

end Term

namespace Choice

theorem isBlank_of_mem_text {choice : Choice} : ∀ c ∈ choice.text, isBlank c = false := by
  apply forall_mem_intercalate
  · exact List.forall_mem_singleton.2 (by decide)
  · intro part hpart c hc
    obtain ⟨term, -, rfl⟩ := List.mem_map.1 hpart
    exact (Term.plain_of_mem_text hc).1

theorem text_ne_nil (choice : Choice) : choice.text ≠ [] := by
  obtain ⟨term, terms, hterms⟩ := List.exists_cons_of_ne_nil choice.terms_ne_nil
  rw [text, hterms]
  cases terms with
  | nil =>
    rw [List.map_singleton, List.intercalate_singleton]
    exact term.text_ne_nil
  | cons second terms =>
    rw [List.map_cons, List.map_cons, List.intercalate_cons_cons]
    simp

theorem split_text (choice : Choice) :
    split (· == ',') choice.text = choice.terms.map Term.text := by
  rw [split_eq_splitOnP]
  apply List.splitOn_intercalate
  · intro part hpart hcomma
    obtain ⟨term, -, rfl⟩ := List.mem_map.1 hpart
    exact (Term.plain_of_mem_text hcomma).2 rfl
  · simp [choice.terms_ne_nil]

end Choice

/-- The words behind `+build` are the options. -/
theorem words_choices (choices : List Choice) :
    words (choices.flatMap fun choice => choice.gap ++ choice.text) =
      choices.map Choice.text := by
  induction choices with
  | nil => rfl
  | cons choice choices ih =>
    have hword := words_word choice.text_ne_nil Choice.isBlank_of_mem_text
    rw [List.flatMap_cons, List.append_assoc,
      words_blanks fun c hc => (choice.gap_blank c hc).1, List.map_cons]
    cases choices with
    | nil => rw [List.flatMap_nil, List.append_nil, hword, List.map_nil]
    | cons next choices =>
      -- The next option begins with a blank, which ends the word.
      obtain ⟨c, gap, hgap⟩ := List.exists_cons_of_ne_nil next.gap_ne_nil
      have hc : isBlank c = true := (next.gap_blank c (hgap ▸ List.mem_cons_self)).1
      have hskip := words_append_blank hc []
      rw [List.flatMap_cons, hgap, List.cons_append, List.cons_append] at ih ⊢
      rw [words_append_blank hc, hword, ← ih, List.singleton_append]
      exact congrArg _ (hskip _).symm

namespace PlusBuild

/-- **The options of a line are read as they are meant.** -/
theorem allowsOptions_choices (p : Platform) (line : PlusBuild) :
    p.allowsOptions (line.choices.flatMap fun choice => choice.gap ++ choice.text) =
      line.holds p := by
  rw [Platform.allowsOptions, words_choices, List.any_map, holds]
  congr 1
  funext choice
  rw [Function.comp_apply, Choice.split_text, List.all_map, Choice.holds]
  congr 1
  funext term
  exact term.allowsTerm_text p

/-- What follows `+build` begins with a blank or a tab. -/
theorem endsDirective_choices (line : PlusBuild) :
    endsDirective (line.choices.flatMap fun choice => choice.gap ++ choice.text) = true := by
  obtain ⟨choice, choices, hchoices⟩ := List.exists_cons_of_ne_nil line.choices_ne_nil
  obtain ⟨c, gap, hgap⟩ := List.exists_cons_of_ne_nil choice.gap_ne_nil
  have hends := choice.gap_ends
  rw [hgap] at hends
  rw [hchoices, List.flatMap_cons, hgap]
  exact hends

theorem plusBuildText?_text (line : PlusBuild) :
    plusBuildText? line.text =
      some (line.choices.flatMap fun choice => choice.gap ++ choice.text) := by
  have hends := line.endsDirective_choices
  unfold text
  generalize (line.choices.flatMap fun choice => choice.gap ++ choice.text) = rest at hends ⊢
  have hstart : "// +build".toList = '/' :: '/' :: ' ' :: "+build".toList := by decide
  have hplus : "+build".toList = '+' :: "build".toList := by decide
  have hcomment : after? ['/', '/'] ("// +build".toList ++ rest) =
      some (' ' :: ("+build".toList ++ rest)) := by
    rw [after?_eq_some, hstart]
    rfl
  have htrim : trimStart (' ' :: ("+build".toList ++ rest)) = "+build".toList ++ rest := by
    rw [trimStart_blank (by decide), hplus, List.cons_append, trimStart_of_not_blank (by decide)]
  -- What follows the two slashes is trimmed, and then begins with the directive.
  have hrest : after? "+build".toList ("+build".toList ++ rest) = some rest :=
    after?_eq_some.2 rfl
  rw [plusBuildText?, hcomment]
  simp only [Option.bind_eq_bind, Option.bind_some, htrim, hrest, hends, if_true]

/-- Behind its slashes a `+build` line has a blank where a `//go:build` line has none. -/
theorem after?_goBuildStart_text (line : PlusBuild) : after? goBuildStart line.text = none := by
  have hstart : "// +build".toList = '/' :: '/' :: ' ' :: "+build".toList := by decide
  have hgo : goBuildStart = '/' :: '/' :: 'g' :: "o:build".toList := by decide
  unfold text
  rw [hgo, hstart]
  rfl

/-- The last character of a line is one of its last option. -/
theorem isBlank_of_getLast?_text (line : PlusBuild) :
    ∀ c ∈ line.text.getLast?, isBlank c = false := by
  intro c hc
  obtain ⟨init, last, hchoices⟩ :=
    List.eq_nil_or_concat line.choices |>.resolve_left line.choices_ne_nil
  unfold text at hc
  rw [hchoices, List.concat_eq_append, List.flatMap_append, List.flatMap_singleton,
    ← List.append_assoc, ← List.append_assoc,
    List.getLast?_append_of_ne_nil _ last.text_ne_nil] at hc
  exact Choice.isBlank_of_mem_text c (List.mem_of_getLast? hc)

theorem newline_not_mem_text (line : PlusBuild) : '\n' ∉ line.text := by
  unfold text
  rw [List.mem_append, List.mem_flatMap, not_or]
  refine ⟨by decide, ?_⟩
  rintro ⟨choice, -, hmem⟩
  rcases List.mem_append.1 hmem with hmem | hmem
  · exact (choice.gap_blank _ hmem).2 rfl
  · have hblank := Choice.isBlank_of_mem_text _ hmem
    revert hblank
    decide

end PlusBuild

/-! ## Headers -/

/-- A comment line as the header keeps it: nothing has to be trimmed. -/
structure Trimmed (line : List Char) : Prop where
  one_line : '\n' ∉ line
  comment : ['/', '/'] <+: line
  last : ∀ c ∈ line.getLast?, isBlank c = false

theorem Trimmed.trim_eq {line : List Char} (h : Trimmed line) : trim line = line := by
  obtain ⟨body, rfl⟩ := h.comment
  have hlast := h.last
  have hstart : trimStart (['/', '/'] ++ body) = ['/', '/'] ++ body :=
    trimStart_of_not_blank (by decide) _
  rw [trim, hstart]
  rw [← List.head?_reverse] at hlast
  rw [trimEnd, List.dropWhile_eq_self_iff.2, List.reverse_reverse]
  intro hpos
  have hhead := hlast _ (List.head?_eq_getElem? ▸ List.getElem?_eq_getElem hpos)
  simpa using hhead

theorem Trimmed.isCommentLine {line : List Char} (h : Trimmed line) :
    Imports.isCommentLine line = true := by
  rw [Imports.isCommentLine, List.isPrefixOf_iff_prefix, ← slashes_trim_iff, h.trim_eq]
  exact h.comment

theorem headerFrom_append_settled (before settled pending : List (List Char))
    (ls : List (List Char)) :
    headerFrom (before ++ settled) pending ls = before ++ headerFrom settled pending ls := by
  induction ls generalizing settled pending with
  | nil => rfl
  | cons line ls ih =>
    rw [headerFrom, headerFrom]
    split
    · rw [List.append_assoc, ih]
    · split
      · exact ih settled _
      · rfl

/-- **Comment lines above a blank line make up the header**, with what follows in it. -/
theorem constraintHeader_comments {comments : List (List Char)}
    (h : ∀ line ∈ comments, Trimmed line) (code : List Char) :
    constraintHeader (String.ofList (unlines comments ++ '\n' :: code)) =
      comments ++ constraintHeader (String.ofList code) := by
  have htrim : comments.map trim = comments := by
    rw [List.map_congr_left fun line hline => (h line hline).trim_eq, List.map_id']
  have hblank : lines ('\n' :: code) = [] :: lines code :=
    lines_append_newline List.not_mem_nil code
  rw [constraintHeader, constraintHeader, String.toList_ofList, String.toList_ofList,
    lines_unlines_append fun line hline => (h line hline).one_line, hblank,
    headerFrom_commentLines fun line hline => (h line hline).isCommentLine, htrim, List.nil_append]
  -- The blank line settles all of the comments, and they stay in front of what the code settles.
  have hsettles : headerFrom [] comments ([] :: lines code) =
      headerFrom (comments ++ []) [] (lines code) := by
    rw [List.append_nil]
    rfl
  rw [hsettles, headerFrom_append_settled]

theorem PlusBuild.trimmed_text (line : PlusBuild) : Trimmed line.text where
  one_line := line.newline_not_mem_text
  comment := by
    refine ⟨" +build".toList ++ line.choices.flatMap fun choice => choice.gap ++ choice.text, ?_⟩
    unfold text
    rw [← List.append_assoc]
    rfl
  last := line.isBlank_of_getLast?_text

/-- Above code without constraint lines, `+build` lines are the header. -/
theorem constraintHeader_plusBuild (lines : List PlusBuild) {code : List Char}
    (hcode : constraintHeader (String.ofList code) = []) :
    constraintHeader (String.ofList (unlines (lines.map PlusBuild.text) ++ '\n' :: code)) =
      lines.map PlusBuild.text := by
  have htrimmed : ∀ text ∈ lines.map PlusBuild.text, Trimmed text := by
    intro text htext
    obtain ⟨line, -, rfl⟩ := List.mem_map.1 htext
    exact line.trimmed_text
  rw [constraintHeader_comments htrimmed, hcode, List.append_nil]

/-- **A header of `+build` lines holds where each of its lines does.** -/
theorem allowsHeader_plusBuild (p : Platform) (lines : List PlusBuild) :
    p.allowsHeader (lines.map PlusBuild.text) = lines.all (PlusBuild.holds p) := by
  have hgoBuild : goBuildText? (lines.map PlusBuild.text) = none := by
    have hnone : (lines.map PlusBuild.text).findSome? (after? goBuildStart) = none := by
      rw [List.findSome?_eq_none_iff]
      intro text htext
      obtain ⟨line, -, rfl⟩ := List.mem_map.1 htext
      exact line.after?_goBuildStart_text
    rw [goBuildText?_eq, hnone, Option.filter_none]
  rw [Platform.allowsHeader, hgoBuild]
  simp only [List.filterMap_map, List.all_filterMap]
  congr 1
  funext line
  rw [Function.comp_apply, line.plusBuildText?_text]
  exact line.allowsOptions_choices p

end PinnedImports.Build
