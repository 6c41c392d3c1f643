import PinnedImports.Proofs.Go.Scan
import PinnedImports.Proofs.Imports.Rows

/-!
# Comment lines above an import

The comment lines above an import are found by their text. Where the run of these lines begins
outside of comments it does consist of comments, and it lies behind everything that stands before
its import (`RowText.exists_lead`): in the lines of such a run only blanks and slashes stand outside
of comments, so no token does.
-/

set_option autoImplicit false

namespace PinnedImports.Imports

open Text Go

/-! ## What stands in comment lines -/

theorem isPlain_of_isBlank {c : Char} (h : isBlank c = true) : IsPlain c := by
  refine ⟨?_, ?_, ?_, ?_⟩
  all_goals
    rintro rfl
    exact absurd h (by decide)

theorem isCommentLine_blank {c : Char} (hc : isBlank c = true) (cs : List Char) :
    isCommentLine (c :: cs) = isCommentLine cs := by
  rw [isCommentLine, trimStart_blank hc, ← isCommentLine]

/-- A comment line that does not start with a blank starts with two slashes. -/
theorem exists_comment {c : Char} (hc : isBlank c = false) {cs : List Char}
    (h : isCommentLine (c :: cs) = true) : ∃ body, c = '/' ∧ cs = '/' :: body := by
  rw [isCommentLine, trimStart_of_not_blank hc, List.isPrefixOf_iff_prefix] at h
  obtain ⟨body, hbody⟩ := h
  rw [List.cons_append, List.cons_append, List.cons.injEq] at hbody
  exact ⟨body, hbody.1.symm, hbody.2.symm⟩

theorem scan_commentLine {l : List Char} (hl : '\n' ∉ l) (h : isCommentLine l = true)
    (rest : List Char) : scan .code (l ++ '\n' :: rest) = scan .code rest := by
  induction l with
  | nil => simp [isCommentLine, trimStart] at h
  | cons c l ih =>
    rw [List.mem_cons, not_or] at hl
    cases hc : isBlank c with
    | true =>
      rw [isCommentLine_blank hc] at h
      rw [List.cons_append, scan_cons, Mode.step, (isPlain_of_isBlank hc).ofCode, ih hl.2 h]
    | false =>
      obtain ⟨body, rfl, rfl⟩ := exists_comment hc h
      have hbody : '\n' ∉ body := fun hmem => hl.2 (List.mem_cons_of_mem _ hmem)
      rw [List.cons_append, List.cons_append, scan_slashes, scan_line hbody]

/-- Outside of comments only blanks and slashes stand on a comment line. -/
theorem blank_of_commentLine {l : List Char} (hl : '\n' ∉ l) (h : isCommentLine l = true) :
    ∀ {p m : List Char} {c : Char}, l ++ ['\n'] = p ++ c :: m → scan .code p = .code →
      isBlank c = true ∨ c = '/' := by
  -- The cut is in the blanks, behind the first slash, or in the comment, where the scan is not in code.
  induction l with
  | nil => simp [isCommentLine, trimStart] at h
  | cons d l ih =>
    intro p m c heq hcode
    rw [List.mem_cons, not_or] at hl
    cases hd : isBlank d with
    | true =>
      rw [isCommentLine_blank hd] at h
      cases p with
      | nil =>
        rw [List.nil_append, List.cons_append, List.cons.injEq] at heq
        exact .inl (heq.1 ▸ hd)
      | cons e p =>
        rw [List.cons_append, List.cons_append, List.cons.injEq] at heq
        obtain ⟨rfl, heq⟩ := heq
        rw [scan_cons, Mode.step, (isPlain_of_isBlank hd).ofCode] at hcode
        exact ih hl.2 h heq hcode
    | false =>
      obtain ⟨body, rfl, rfl⟩ := exists_comment hd h
      rcases p with _ | ⟨e, _ | ⟨f, p⟩⟩
      · rw [List.nil_append, List.cons_append, List.cons.injEq] at heq
        exact .inr heq.1.symm
      · rw [List.cons_append, List.singleton_append, List.cons.injEq] at heq
        rw [← heq.1] at hcode
        exact absurd hcode (by decide)
      · simp only [List.cons_append, List.cons.injEq] at heq
        obtain ⟨rfl, rfl, heq⟩ := heq
        -- The comment goes on up to the end of the line.
        obtain ⟨m', d', hm⟩ : ∃ m' d', c :: m = m' ++ [d'] := by
          rcases (c :: m).eq_nil_or_concat with hnil | ⟨m', d', hm⟩
          · simp at hnil
          · exact ⟨m', d', by rw [hm, List.concat_eq_append]⟩
        rw [hm, ← List.append_assoc] at heq
        have hbody := (List.append_inj' heq rfl).1
        have hp : '\n' ∉ p := fun hmem =>
          hl.2 (List.mem_cons_of_mem _ (by rw [hbody]; exact List.mem_append_left _ hmem))
        rw [scan_slashes, scan_lineComment hp] at hcode
        simp at hcode

/-- Outside of comments only blanks and slashes stand in a run of comment lines. -/
theorem blank_of_commentLines {ls : List (List Char)}
    (hls : ∀ l ∈ ls, '\n' ∉ l ∧ isCommentLine l = true) :
    ∀ {p m : List Char} {c : Char}, unlines ls = p ++ c :: m → scan .code p = .code →
      isBlank c = true ∨ c = '/' := by
  induction ls with
  | nil =>
    intro p m c heq _
    simp at heq
  | cons l ls ih =>
    intro p m c heq hcode
    obtain ⟨hl, hcomment⟩ := hls l (List.mem_cons_self ..)
    have hls' : ∀ l ∈ ls, '\n' ∉ l ∧ isCommentLine l = true := fun m hm =>
      hls m (List.mem_cons_of_mem _ hm)
    have hsplit : l ++ ['\n'] ++ unlines ls = p ++ c :: m := by
      rw [← heq]
      simp
    rcases List.append_eq_append_iff.1 hsplit with ⟨q, rfl, hq⟩ | ⟨q, hline, hq⟩
    · rw [List.append_assoc, List.singleton_append, scan_commentLine hl hcomment] at hcode
      exact ih hls' hq hcode
    · cases q with
      | nil =>
        rw [List.nil_append] at hq
        have hfirst : unlines ls = [] ++ c :: m := hq.symm
        exact ih hls' hfirst (scan_nil .code)
      | cons d q =>
        rw [List.cons_append, List.cons.injEq] at hq
        obtain ⟨rfl, -⟩ := hq
        exact blank_of_commentLine hl hcomment hline hcode

/-! ## Texts that no run of comment lines reaches into -/

/-- Wherever the text is cut in code at the start of a line, a token stands behind the cut. -/
def Guarded (text : List Char) : Prop :=
  ∀ ⦃u w : List Char⦄, text = u ++ w → LineEnded u → scan .code u = .code → w ≠ [] →
    ∃ p c q, w = p ++ c :: q ∧ scan .code p = .code ∧ isBlank c = false ∧ c ≠ '/'

/-- A run of comment lines does not reach into a guarded text. -/
theorem Guarded.eq_nil {text u w rest : List Char} {ls : List (List Char)} (h : Guarded text)
    (htext : text = u ++ w) (hu : LineEnded u) (hcode : scan .code u = .code)
    (hls : ∀ l ∈ ls, '\n' ∉ l ∧ isCommentLine l = true) (hrun : unlines ls = w ++ rest) :
    w = [] := by
  by_contra hw
  obtain ⟨p, c, q, rfl, hp, hblank, hslash⟩ := h htext hu hcode hw
  rw [List.append_assoc, List.cons_append] at hrun
  rcases blank_of_commentLines hls hrun hp with hc | hc
  · rw [hblank] at hc
    simp at hc
  · exact hslash hc

theorem guarded_paren {text : List Char} (h : scan .code text = .code) :
    Guarded (text ++ ['(']) := by
  intro u w heq _ hcode hw
  obtain ⟨w', d, rfl⟩ := w.eq_nil_or_concat.resolve_left hw
  rw [List.concat_eq_append, ← List.append_assoc] at heq
  obtain ⟨rfl, hd⟩ := List.append_inj' heq rfl
  rw [List.cons.injEq] at hd
  rw [scan_append, hcode] at h
  exact ⟨w', '(', [], by rw [List.concat_eq_append, ← hd.1], h, by decide, by decide⟩

/-- A specification with its terminator guards the text before it. -/
theorem guarded_line {before gap closing : List Char} {s : SpecText}
    (hbefore : scan .code before = .code) (hgap : Blanks gap) (hclosing : Closing closing) :
    Guarded (before ++ (gap ++ (s.chars ++ closing))) := by
  intro u w heq hu hcode _
  have hhead : scan .code (before ++ (gap ++ s.head)) = .code := by
    rw [scan_code_append hbefore, scan_code_append (scan_blanks hgap)]
    exact s.scan_head
  obtain ⟨c, cs, hliteral, hquote⟩ := s.isLiteral.head
  have hsolid : isBlank c = false ∧ c ≠ '/' := by
    rcases hquote with rfl | rfl
    · exact ⟨by decide, by decide⟩
    · exact ⟨by decide, by decide⟩
  have hsplit : before ++ (gap ++ s.head) ++ (s.literal ++ closing) = u ++ w := by
    rw [← heq, SpecText.chars]
    simp
  rcases List.append_eq_append_iff.1 hsplit with ⟨m, rfl, hrest⟩ | ⟨m, hcut, rfl⟩
  · -- The cut is behind the head: at the literal, or behind it.
    rw [scan_code_append hhead] at hcode
    rcases (isPiece_literal s.isLiteral).cut hrest hcode with rfl | ⟨m', rfl, hrest'⟩
    · rw [List.nil_append] at hrest
      exact ⟨[], c, cs ++ closing, by rw [← hrest, hliteral]; rfl, rfl, hsolid⟩
    · -- Behind the literal no line starts before the end of the terminator.
      rw [scan_code_append (scan_literal s.isLiteral)] at hcode
      rename_i hw
      have hm : m' = [] := hclosing.cut hrest' hw hcode hu.of_append.of_append
      subst hm
      obtain ⟨init, d, hlast, hd⟩ := s.isLiteral.last
      have hnl := hu d (by rw [hlast]; simp)
      rw [hnl] at hd
      rcases hd with hd | hd
      · exact absurd hd (by decide)
      · exact absurd hd (by decide)
  · -- The cut is in front of the literal, whose quote stands behind it then.
    refine ⟨m, c, cs ++ closing, by rw [hliteral]; rfl, ?_, hsolid⟩
    rw [hcut, scan_append, hcode] at hhead
    exact hhead

/-! ## The run above an import -/

/-- Lines are cut in code at the start of a run of comment lines that ends them. -/
theorem cut_lines {n : Nat} {specs : List ImportSpec} {cs : List Char}
    (h : Lines true n specs cs) :
    ∀ {u : List Char} {ls : List (List Char)}, cs = u ++ unlines ls → LineEnded u →
      scan .code u = .code → (∀ l ∈ ls, '\n' ∉ l ∧ isCommentLine l = true) →
        Lines true (byteLength (unlines ls) + n) specs u ∧ Blanks (unlines ls) := by
  induction h with
  | done hblanks =>
    intro u ls heq _ hcode _
    obtain ⟨hu, hls⟩ := hblanks.cut heq hcode
    exact ⟨.done hu, hls⟩
  | last hwhole => simp at hwhole
  | @line gap closing cs s specs hgap hclosing _ ih =>
    intro u ls heq hend hcode hls
    have hguard := guarded_line (s := s) (scan_nil .code) hgap hclosing
    have hline : scan .code (gap ++ (s.chars ++ closing)) = .code := by
      rw [scan_code_append (scan_blanks hgap), scan_code_append s.scan_chars]
      exact scan_closing hclosing
    have hsplit : gap ++ (s.chars ++ closing) ++ cs = u ++ unlines ls := by
      rw [← heq]
      simp
    -- The run begins behind the first specification, since that guards its line.
    have hbehind : ∃ m, u = gap ++ (s.chars ++ closing) ++ m ∧ cs = m ++ unlines ls := by
      rcases List.append_eq_append_iff.1 hsplit with hbehind | ⟨w, hcut, hrun⟩
      · exact hbehind
      · have hw := hguard.eq_nil hcut hend hcode hls hrun
        subst hw
        exact ⟨[], by rw [hcut]; simp, by rw [hrun]; rfl⟩
    obtain ⟨m, rfl, hm⟩ := hbehind
    rw [scan_code_append hline] at hcode
    obtain ⟨hlines, hblanks⟩ := ih hm hend.of_append hcode hls
    refine ⟨?_, hblanks⟩
    have hall := Lines.line (s := s) hgap hclosing hlines
    have hplace : byteLength (closing ++ m) + (byteLength (unlines ls) + n) =
        byteLength (closing ++ cs) + n := by
      rw [hm]
      simp only [byteLength_append]
      omega
    rw [hplace] at hall
    simpa using hall

/-- **A run of comment lines that begins in code lies behind the text before and consists of
comments.** -/
theorem RowText.exists_lead {before : List Char} (r : RowText before) {n : Nat}
    {specs : List ImportSpec} (hbefore : scan .code before = .code) (hguard : Guarded before)
    (hlines : Lines true n specs r.between) (hcode : scan .code (unlines r.above) = .code) :
    ∃ u, r.between = u ++ unlines r.comment ∧ unlines r.above = before ++ u ∧
      Lines true (byteLength (unlines r.comment) + n) specs u ∧ Blanks (unlines r.comment) := by
  have hcut : ∃ u, unlines r.above = before ++ u ∧ r.between = u ++ unlines r.comment := by
    rcases List.append_eq_append_iff.1 r.above_eq with hcut | ⟨w, hw, hrun⟩
    · exact hcut
    · have hnil := hguard.eq_nil hw (lineEnded_unlines _) hcode r.isComment hrun
      subst hnil
      rw [List.append_nil] at hw
      exact ⟨[], by rw [List.append_nil]; exact hw.symm, by rw [hrun]; rfl⟩
  obtain ⟨u, habove, hbetween⟩ := hcut
  have hend := lineEnded_unlines r.above
  rw [habove] at hend hcode
  rw [scan_code_append hbefore] at hcode
  obtain ⟨hu, hblanks⟩ := cut_lines hlines hbetween hend.of_append hcode r.isComment
  exact ⟨u, hbetween, habove, hu, hblanks⟩

end PinnedImports.Imports
