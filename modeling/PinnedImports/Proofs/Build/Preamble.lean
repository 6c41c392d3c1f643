import Mathlib.Data.List.DropRight
import PinnedImports.Proofs.Build.Header

/-!
# The lines that build constraints are read from

Whether a text is built is settled by its lines up to the last blank one above the first line of
code (`constraintHeader_above`). An `Opening` is a text cut there: these lines, the comment lines
directly above the package clause, and the line with the clause. Neither what stands behind that line nor
the comment lines matter for the build, and it does not matter either whether lines end with LF or with
CR LF (`allowsSource_opening`).

A line that begins with a general comment is taken for code here. Constraints behind such a comment are not
read (`allowsSource_generalComment`), so a text in front of which one is set is built whatever its
constraints say.
-/

set_option autoImplicit false

namespace PinnedImports.Build

open Text Go Imports

/-! ## The first line of code -/

/-- Whatever follows the characters on their line, it is neither blank nor a comment line. -/
def StartsCode (front : List Char) : Prop := ∀ behind, ¬ Bare (front ++ behind)

theorem trimStart_append {front : List Char} (h : trimStart front ≠ []) (behind : List Char) :
    trimStart (front ++ behind) = trimStart front ++ behind := by
  rw [trimStart, List.dropWhile_append, if_neg (by rwa [List.isEmpty_iff]), ← trimStart]

/-- How a package clause begins. -/
def packageWord : List Char := "package".toList

theorem startsCode_of_package {front : List Char} (h : packageWord <+: trimStart front) :
    StartsCode front := by
  obtain ⟨rest, hrest⟩ := h
  have hword : packageWord = 'p' :: "ackage".toList := by decide
  rw [hword, List.cons_append] at hrest
  have hne : trimStart front ≠ [] := by
    rw [← hrest]
    exact List.cons_ne_nil _ _
  intro behind hbare
  rw [Bare, trimStart_append hne, ← hrest, List.cons_append] at hbare
  rcases hbare with hnil | ⟨body, hbody⟩
  · exact List.cons_ne_nil _ _ hnil
  · rw [List.cons_append, List.cons.injEq] at hbody
    exact absurd hbody.1 (by decide)

theorem startsCode_slash_star : StartsCode ['/', '*'] := by
  intro behind hbare
  rw [List.cons_append] at hbare
  have hslash := (hbare.slashes (by decide)).2
  simp at hslash

variable {above doc : List (List Char)} {front : List Char}

/-- Lines from the first line of code on are not part of the header, and comment lines directly above it
are not either. -/
theorem headerFrom_above (habove : ∀ line ∈ above, Bare line)
    (hdoc : ∀ line ∈ doc, isCommentLine line = true) {line : List Char} (hline : ¬ Bare line)
    (settled pending rest : List (List Char)) :
    headerFrom settled pending (above ++ (doc ++ line :: rest)) =
      headerFrom settled pending above := by
  obtain ⟨settled', pending', hgoes⟩ := headerFrom_bareLines habove settled pending
  have hends := hgoes []
  rw [List.append_nil] at hends
  rw [hgoes, hends, headerFrom_commentLines hdoc, headerFrom_code _ _ _ hline, headerFrom]

/-- **The header is that of the lines above the first line of code**, of which the comment lines directly
above it can be left out. -/
theorem constraintHeader_above (habove : ∀ line ∈ above, '\n' ∉ line ∧ Bare line)
    (hdoc : ∀ line ∈ doc, '\n' ∉ line ∧ isCommentLine line = true) (hfront : '\n' ∉ front)
    (hcode : StartsCode front) (rest : List Char) :
    constraintHeader (String.ofList (unlines above ++ (unlines doc ++ (front ++ rest)))) =
      constraintHeader (String.ofList (unlines above)) := by
  have hne : front ≠ [] := by
    rintro rfl
    exact hcode [] (.inl rfl)
  obtain ⟨behind, others, hlines, -⟩ := exists_lines hfront hne rest
  have honly : lines (unlines above) = above := by
    have hall := lines_unlines_append (fun line hline => (habove line hline).1) []
    rw [List.append_nil] at hall
    rw [hall]
    exact List.append_nil above
  rw [constraintHeader, constraintHeader, String.toList_ofList, String.toList_ofList,
    lines_unlines_append fun line hline => (habove line hline).1,
    lines_unlines_append fun line hline => (hdoc line hline).1, hlines, honly]
  exact headerFrom_above (fun line hline => (habove line hline).2)
    (fun line hline => (hdoc line hline).2) (hcode behind) [] [] others

/-! ## General comments -/

/-- A comment between `/*` and `*/`. -/
def generalComment (body : List Char) : List Char := '/' :: '*' :: (body ++ ['*', '/'])

/-- **A general comment ends the header.** Behind lines that are blank or comment lines only the
constraints in front of a general comment count, whatever stands in the comment and behind it. So a text
has the constraints that it has with a general comment in front of it exactly if its own constraints
hold. -/
theorem allowsSource_generalComment (p : Platform)
    (habove : ∀ line ∈ above, '\n' ∉ line ∧ Bare line) (body text : List Char) :
    p.allowsSource (String.ofList (unlines above ++ (generalComment body ++ '\n' :: text))) =
        p.allowsSource (String.ofList (unlines above)) ∧
      (p.allowsSource (String.ofList (generalComment body ++ '\n' :: text)) =
          p.allowsSource (String.ofList text) ↔
        p.allowsSource (String.ofList text) = true) := by
  have hends : ∀ above : List (List Char), (∀ line ∈ above, '\n' ∉ line ∧ Bare line) →
      p.allowsSource (String.ofList (unlines above ++ (generalComment body ++ '\n' :: text))) =
        p.allowsSource (String.ofList (unlines above)) := by
    intro above habove
    have hdoc : ∀ line ∈ ([] : List (List Char)), '\n' ∉ line ∧ isCommentLine line = true := by simp
    have hheader := constraintHeader_above habove hdoc (by decide : '\n' ∉ ['/', '*'])
      startsCode_slash_star (body ++ ['*', '/'] ++ '\n' :: text)
    rw [Platform.allowsSource, Platform.allowsSource, ← hheader]
    rfl
  have hfirst : p.allowsSource (String.ofList (generalComment body ++ '\n' :: text)) = true :=
    hends [] (by simp)
  refine ⟨hends above habove, ?_⟩
  rw [hfirst]
  exact eq_comm

/-- A text with a condition that never holds. -/
def ignoredText : String := "//go:build ignore\n\npackage p\n"

/-- A general comment on two lines in front of `ignoredText` has it built, and a condition in front of the
comment still counts. -/
theorem generalComment_hides_condition :
    (∀ line ∈ ["//go:build plan9".toList, []], '\n' ∉ line ∧ Bare line) ∧
      Platform.host.allowsSource ignoredText = false ∧
      Platform.host.allowsSource (String.ofList (unlines ["//go:build plan9".toList, []] ++
        (generalComment " pinned\n by hand ".toList ++ '\n' :: ignoredText.toList))) = false ∧
      Platform.host.allowsSource (String.ofList
        (generalComment " pinned\n by hand ".toList ++ '\n' :: ignoredText.toList)) = true := by
  have habove : ∀ line ∈ ["//go:build plan9".toList, []], '\n' ∉ line ∧ Bare line := by decide
  have hignored : Platform.host.allowsSource ignoredText = false := by decide +kernel
  obtain ⟨hends, hkept⟩ := allowsSource_generalComment Platform.host habove
    " pinned\n by hand ".toList ignoredText.toList
  rw [String.ofList_toList, hignored] at hkept
  refine ⟨habove, hignored, ?_, ?_⟩
  · rw [hends]
    decide +kernel
  · rw [← Bool.not_eq_false]
    exact fun hfalse => Bool.false_ne_true (hkept.1 hfalse)

/-! ## Line endings -/

/-- LF and CR LF. -/
def lineEndings : List (List Char) := [['\n'], ['\r', '\n']]

/-- A text with the ending at each of its lines, where LF or CR LF was. -/
def withLineEnding (ending : List Char) : List Char → List Char
  | '\r' :: '\n' :: rest => ending ++ withLineEnding ending rest
  | '\n' :: rest => ending ++ withLineEnding ending rest
  | c :: rest => c :: withLineEnding ending rest
  | [] => []

theorem withLineEnding_cons {c : Char} {cs : List Char} (hcr : ∀ rest, c = '\r' → cs ≠ '\n' :: rest)
    (hlf : c ≠ '\n') (ending : List Char) :
    withLineEnding ending (c :: cs) = c :: withLineEnding ending cs := by
  rw [withLineEnding]
  · exact hcr
  · exact hlf

/-- The CR of a CR LF belongs to the ending, and all else on the line stays. -/
theorem exists_withLineEnding_line (ending : List Char) {line : List Char} (h : '\n' ∉ line) :
    ∃ body, (line = body ∨ line = body ++ ['\r']) ∧ ∀ rest,
      withLineEnding ending (line ++ '\n' :: rest) =
        body ++ (ending ++ withLineEnding ending rest) := by
  induction line with
  | nil => exact ⟨[], .inl rfl, fun rest => by rw [List.nil_append, withLineEnding]; rfl⟩
  | cons c line ih =>
    rw [List.mem_cons, not_or] at h
    by_cases hend : c = '\r' ∧ line = []
    · obtain ⟨rfl, rfl⟩ := hend
      refine ⟨[], .inr rfl, fun rest => ?_⟩
      rw [List.cons_append, List.nil_append, withLineEnding]
      rfl
    · obtain ⟨body, hbody, hgoes⟩ := ih h.2
      refine ⟨c :: body, ?_, fun rest => ?_⟩
      · rcases hbody with rfl | rfl
        · exact .inl rfl
        · exact .inr rfl
      · rw [List.cons_append, withLineEnding_cons _ (Ne.symm h.1), hgoes, List.cons_append]
        -- A LF right behind a CR would be the end of the line.
        rintro rest' rfl hrest
        cases line with
        | nil => exact hend ⟨rfl, rfl⟩
        | cons d line =>
          rw [List.cons_append, List.cons.injEq] at hrest
          exact h.2 (hrest.1 ▸ List.mem_cons_self)

theorem withLineEnding_last (ending : List Char) {line : List Char} (h : '\n' ∉ line) :
    withLineEnding ending line = line := by
  induction line with
  | nil => rfl
  | cons c line ih =>
    rw [List.mem_cons, not_or] at h
    rw [withLineEnding_cons _ (Ne.symm h.1), ih h.2]
    rintro rest - rfl
    exact h.2 List.mem_cons_self

theorem trim_append_blank {c : Char} (hc : isBlank c = true) (cs : List Char) :
    trim (cs ++ [c]) = trim cs := by
  by_cases hnil : trimStart cs = []
  · rw [trim_eq_nil_iff.2 hnil, trim_eq_nil_iff, trimStart, List.dropWhile_append, ← trimStart, hnil]
    rw [List.isEmpty_nil, if_pos rfl, List.dropWhile_cons_of_pos hc, List.dropWhile_nil]
  · rw [trim, trimStart_append hnil, trimEnd, List.reverse_append, List.reverse_singleton,
      List.singleton_append, List.dropWhile_cons_of_pos hc, ← trimEnd, ← trim]

/-- Only the endings of lines change, so the trimmed lines stay. -/
theorem map_trim_withLineEnding {ending : List Char} (hending : ending ∈ lineEndings)
    (text : List Char) : (lines (withLineEnding ending text)).map trim = (lines text).map trim := by
  obtain ⟨back, hback, rfl⟩ : ∃ back, (back = [] ∨ back = ['\r']) ∧ ending = back ++ ['\n'] := by
    simp only [lineEndings, List.mem_cons, List.not_mem_nil, or_false] at hending
    rcases hending with rfl | rfl
    · exact ⟨[], .inl rfl, rfl⟩
    · exact ⟨['\r'], .inr rfl, rfl⟩
  have htrim : ∀ {back' : List Char}, back' = [] ∨ back' = ['\r'] →
      ∀ body, trim (body ++ back') = trim body := by
    rintro back' (rfl | rfl) body
    · rw [List.append_nil]
    · exact trim_append_blank (by decide) body
  obtain ⟨ls, last, rfl, hls, hlast⟩ := exists_unlines text
  induction ls with
  | nil => rw [unlines_nil, List.nil_append, withLineEnding_last _ hlast]
  | cons line ls ih =>
    have hline := hls line List.mem_cons_self
    obtain ⟨body, hbody, hgoes⟩ := exists_withLineEnding_line (back ++ ['\n']) hline
    obtain ⟨cr, hcr, rfl⟩ : ∃ cr, (cr = [] ∨ cr = ['\r']) ∧ line = body ++ cr := by
      rcases hbody with rfl | rfl
      · exact ⟨[], .inl rfl, (List.append_nil line).symm⟩
      · exact ⟨['\r'], .inr rfl, rfl⟩
    have hnew : '\n' ∉ body ++ back := by
      rw [List.mem_append, not_or] at hline ⊢
      refine ⟨hline.1, ?_⟩
      rcases hback with rfl | rfl <;> decide
    have hsplit : body ++ (back ++ ['\n'] ++
        withLineEnding (back ++ ['\n']) (unlines ls ++ last)) =
          body ++ back ++ '\n' :: withLineEnding (back ++ ['\n']) (unlines ls ++ last) := by
      simp
    rw [unlines_cons, List.append_assoc, List.cons_append, hgoes, hsplit,
      lines_append_newline hnew, lines_append_newline hline, List.map_cons, List.map_cons,
      htrim hback, htrim hcr, ih fun other hother => hls other (List.mem_cons_of_mem _ hother)]

/-- The header is made up of trimmed lines. -/
theorem headerFrom_congr_trim {ls ls' : List (List Char)} (h : ls.map trim = ls'.map trim) :
    ∀ settled pending, headerFrom settled pending ls = headerFrom settled pending ls' := by
  induction ls generalizing ls' with
  | nil =>
    rw [List.map_nil, eq_comm, List.map_eq_nil_iff] at h
    rw [h]
    exact fun _ _ => rfl
  | cons line ls ih =>
    intro settled pending
    cases ls' with
    | nil => simp at h
    | cons line' ls' =>
      rw [List.map_cons, List.map_cons, List.cons.injEq] at h
      rw [headerFrom, headerFrom, h.1]
      split
      · exact ih h.2 _ _
      · split
        · exact ih h.2 _ _
        · rfl

theorem allowsSource_withLineEnding (p : Platform) {ending : List Char}
    (hending : ending ∈ lineEndings) (text : String) :
    p.allowsSource (String.ofList (withLineEnding ending text.toList)) = p.allowsSource text := by
  have hheader := headerFrom_congr_trim (map_trim_withLineEnding hending text.toList) [] []
  rw [Platform.allowsSource, Platform.allowsSource, constraintHeader, constraintHeader,
    String.toList_ofList, hheader]

/-! ## Openings -/

/-- A text up to its package clause: the lines that end with the last blank one above the clause, the
comment lines directly above the clause, and the line that begins with it. -/
structure Opening where
  above : List (List Char)
  doc : List (List Char)
  clause : List Char
  above_bare : ∀ line ∈ above, '\n' ∉ line ∧ Bare line
  above_last : ∀ line ∈ above.getLast?, trimStart line = []
  doc_comment : ∀ line ∈ doc, '\n' ∉ line ∧ isCommentLine line = true
  one_line : '\n' ∉ clause
  package : packageWord <+: trimStart clause

namespace Opening

/-- The opening with a text behind it. -/
def text (o : Opening) (rest : List Char) : String :=
  String.ofList (unlines o.above ++ (unlines o.doc ++ (o.clause ++ rest)))

/-- The build is settled by the lines up to the last blank one. -/
theorem allowsSource_text (p : Platform) (o : Opening) (rest : List Char) :
    p.allowsSource (o.text rest) = p.allowsSource (String.ofList (unlines o.above)) := by
  rw [Platform.allowsSource, Platform.allowsSource, text,
    constraintHeader_above o.above_bare o.doc_comment o.one_line (startsCode_of_package o.package)]

end Opening

/-- Every text whose first line that is neither blank nor a comment line begins with `package` has an
opening. -/
theorem exists_opening {text : String} {clause : List Char}
    (hclause : (lines text.toList).find? (fun line => ¬ Bare line) = some clause)
    (hpackage : packageWord <+: trimStart clause) :
    ∃ (o : Opening) (rest : List Char), o.clause = clause ∧ (∀ c ∈ rest.head?, c = '\n') ∧
      text = o.text rest := by
  rw [List.find?_eq_some_iff_append] at hclause
  obtain ⟨-, before, behind, hlines, hbefore⟩ := hclause
  obtain ⟨hone, hline, rest, htext, hrest⟩ := exists_cut hlines
  have hbare : ∀ line ∈ before, Bare line := by
    intro line hmem
    simpa using hbefore line hmem
  -- The comment lines at the end of those above the clause are the ones directly above it.
  have hcut : before.rdropWhile isCommentLine ++ before.rtakeWhile isCommentLine = before :=
    List.rdropWhile_append_rtakeWhile
  have habove : ∀ line ∈ before.rdropWhile isCommentLine, line ∈ before := fun line hmem =>
    (List.rdropWhile_prefix isCommentLine before).subset hmem
  have hdoc : ∀ line ∈ before.rtakeWhile isCommentLine, line ∈ before := fun line hmem =>
    (List.rtakeWhile_suffix isCommentLine before).subset hmem
  refine ⟨{ above := before.rdropWhile isCommentLine
            doc := before.rtakeWhile isCommentLine
            clause := clause
            above_bare := fun line hmem => ⟨hone line (habove line hmem), hbare line (habove line hmem)⟩
            above_last := ?_
            doc_comment := fun line hmem =>
              ⟨hone line (hdoc line hmem), List.mem_rtakeWhile_imp hmem⟩
            one_line := hline
            package := hpackage }, rest, rfl, hrest, ?_⟩
  · intro line hlast
    have hne : before.rdropWhile isCommentLine ≠ [] := by
      intro hnil
      rw [hnil] at hlast
      simp at hlast
    have hnot := List.rdropWhile_last_not isCommentLine before hne
    rw [List.getLast?_eq_some_getLast hne, Option.mem_some_iff] at hlast
    rw [hlast] at hnot
    exact (bare_iff.1 (hbare line (habove line (hlast ▸ List.getLast_mem hne)))).resolve_right hnot
  · rw [Opening.text, ← List.append_assoc, ← unlines_append, hcut, ← htext, String.ofList_toList]

/-- **Only the lines up to the last blank one above the package clause count.** A text whose first line
that is neither blank nor a comment line begins with `package` is built just as every text with the same
lines up to the last blank one: whatever comment lines stand directly above the package clause, constraints
included, and whatever stands behind the clause. It is also built just as the text with LF or with CR LF at
the end of each line. -/
theorem allowsSource_opening (p : Platform) {text : String} {clause : List Char}
    (hclause : (lines text.toList).find? (fun line => ¬ Bare line) = some clause)
    (hpackage : packageWord <+: trimStart clause) :
    ∃ (o : Opening) (rest : List Char), o.clause = clause ∧ (∀ c ∈ rest.head?, c = '\n') ∧
      text = o.text rest ∧
      (∀ (o' : Opening) (rest' : List Char), o'.above = o.above →
        p.allowsSource (o'.text rest') = p.allowsSource text) ∧
      ∀ ending ∈ lineEndings,
        p.allowsSource (String.ofList (withLineEnding ending text.toList)) =
          p.allowsSource text := by
  obtain ⟨o, rest, hline, hrest, rfl⟩ := exists_opening hclause hpackage
  refine ⟨o, rest, hline, hrest, rfl, fun o' rest' habove => ?_,
    fun ending hending => allowsSource_withLineEnding p hending _⟩
  rw [o'.allowsSource_text, o.allowsSource_text, habove]

/-- A text with a constraint in its header and one that stands directly above the package clause. -/
def documentedText : String := "// +build !plan9\r\n \n// +build ignore\n\tpackage p\n"

/-- The constraint above the clause does not count in `documentedText`, also with CR LF. -/
theorem doc_comment_without_effect :
    (lines documentedText.toList).find? (fun line => ¬ Bare line) = some "\tpackage p".toList ∧
      packageWord <+: trimStart "\tpackage p".toList ∧
      Platform.host.allowsSource documentedText = true ∧
      (∃ o : Opening, o.clause = "\tpackage p".toList ∧
        ∀ rest, Platform.host.allowsSource (o.text rest) = true) ∧
      Platform.host.allowsSource
        (String.ofList (withLineEnding ['\r', '\n'] documentedText.toList)) = true := by
  have hclause : (lines documentedText.toList).find? (fun line => ¬ Bare line) =
      some "\tpackage p".toList := by decide +kernel
  have hpackage : packageWord <+: trimStart "\tpackage p".toList := by decide +kernel
  have hbuilt : Platform.host.allowsSource documentedText = true := by decide +kernel
  obtain ⟨o, rest, hline, -, -, hsame, hending⟩ :=
    allowsSource_opening Platform.host hclause hpackage
  refine ⟨hclause, hpackage, hbuilt, ⟨o, hline, fun rest' => ?_⟩, ?_⟩
  · rw [hsame o rest' rfl, hbuilt]
  · rw [hending _ (by decide), hbuilt]

end PinnedImports.Build
