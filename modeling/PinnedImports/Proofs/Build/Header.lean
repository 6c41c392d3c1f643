import PinnedImports.Build.Header
import PinnedImports.Proofs.Imports.Leads

/-!
# Where the constraint header ends

The constraint header of a file ends in front of the first line with code, so what stands behind a
character of the code does not matter for the build (`allowsSource_congr`). A line that looks like a
comment line is one here: a block comment or a literal would begin on a line that ends the header.
-/

set_option autoImplicit false

namespace PinnedImports.Build

open Text Go Imports

/-! ## Lines of a text -/

theorem split_ne_nil (p : Char → Bool) (cs : List Char) : split p cs ≠ [] := by
  cases cs with
  | nil => simp [split]
  | cons c cs =>
    rw [split]
    split
    · simp
    · split <;> simp

theorem split_eq_splitOnP (p : Char → Bool) (cs : List Char) : split p cs = cs.splitOnP p := by
  induction cs with
  | nil => rfl
  | cons c cs ih =>
    rw [split, List.splitOnP_cons_eq_if_modifyHead, ih]
    split
    · rfl
    · cases hpieces : cs.splitOnP p with
      | nil => exact absurd (ih.trans hpieces) (split_ne_nil p cs)
      | cons piece pieces => rfl

theorem lines_append_newline {line : List Char} (h : '\n' ∉ line) (rest : List Char) :
    lines (line ++ '\n' :: rest) = line :: lines rest := by
  rw [lines, lines, split_line h]
  obtain ⟨piece, others, hsplit⟩ := List.exists_cons_of_ne_nil (split_ne_nil (· == '\n') rest)
  rw [hsplit, List.getLast?_cons_cons, List.dropLast_cons_cons]
  split <;> rfl

theorem lines_unlines_append {ls : List (List Char)} (h : ∀ line ∈ ls, '\n' ∉ line)
    (rest : List Char) : lines (unlines ls ++ rest) = ls ++ lines rest := by
  induction ls with
  | nil => rfl
  | cons line ls ih =>
    rw [unlines_cons, List.append_assoc, List.cons_append,
      lines_append_newline (h line List.mem_cons_self), List.cons_append,
      ih fun other hother => h other (List.mem_cons_of_mem _ hother)]

theorem split_of_not_mem {separator : Char} {piece : List Char} (h : separator ∉ piece) :
    split (· == separator) piece = [piece] := by
  rw [split_eq_splitOnP, List.splitOnP_eq_singleton]
  intro c hc
  apply beq_false_of_ne
  rintro rfl
  exact h hc

theorem lines_of_not_mem {line : List Char} (h : '\n' ∉ line) :
    lines line = if line = [] then [] else [line] := by
  rw [lines, split_of_not_mem h]
  simp

/-- A text is cut at its lines: in front of one of them stand the lines before it. -/
theorem exists_cut {text line : List Char} {before behind : List (List Char)}
    (h : lines text = before ++ line :: behind) :
    (∀ other ∈ before, '\n' ∉ other) ∧ '\n' ∉ line ∧
      ∃ rest, text = unlines before ++ (line ++ rest) ∧ ∀ c ∈ rest.head?, c = '\n' := by
  obtain ⟨ls, last, rfl, hls, hlast⟩ := exists_unlines text
  rw [lines_unlines_append hls, lines_of_not_mem hlast] at h
  -- The line is one of those with a newline behind them, or the last one.
  have hcases : (∃ others, ls = before ++ line :: others) ∨ (ls = before ∧ last = line) := by
    rcases List.append_eq_append_iff.1 h with ⟨others, hbefore, hrest⟩ | ⟨others, hbefore, hrest⟩
    · split at hrest
      · simp at hrest
      · obtain ⟨rfl, hline⟩ | ⟨-, hline⟩ := List.singleton_eq_append_iff.1 hrest
        · rw [List.cons.injEq] at hline
          exact .inr ⟨by rw [hbefore, List.append_nil], hline.1.symm⟩
        · simp at hline
    · cases others with
      | nil =>
        rw [List.append_nil] at hbefore
        split at hrest
        · simp at hrest
        · rw [List.nil_append, List.cons.injEq] at hrest
          exact .inr ⟨hbefore, hrest.1.symm⟩
      | cons other others =>
        rw [List.cons_append, List.cons.injEq] at hrest
        exact .inl ⟨others, by rw [hbefore, hrest.1]⟩
  rcases hcases with ⟨others, rfl⟩ | ⟨rfl, rfl⟩
  · refine ⟨fun other hother => hls other (List.mem_append_left _ hother),
      hls line (List.mem_append_right _ List.mem_cons_self), '\n' :: (unlines others ++ last), ?_, ?_⟩
    · simp
    · simp
  · exact ⟨hls, hlast, [], by rw [List.append_nil], by simp⟩

/-- The first line of a text goes on behind characters that are no newlines. -/
theorem exists_lines {front : List Char} (h : '\n' ∉ front) (hne : front ≠ []) (rest : List Char) :
    ∃ behind others, lines (front ++ rest) = (front ++ behind) :: others ∧
      '\n' ∉ front ++ behind := by
  have hline : ∀ {behind : List Char}, '\n' ∉ behind → '\n' ∉ front ++ behind := by
    intro behind hbehind
    rw [List.mem_append, not_or]
    exact ⟨h, hbehind⟩
  obtain ⟨ls, w, rfl, hls, hw⟩ := exists_unlines rest
  cases ls with
  | nil =>
    refine ⟨w, [], ?_, hline hw⟩
    rw [unlines_nil, List.nil_append, lines_of_not_mem (hline hw), if_neg (by simp [hne])]
  | cons behind ls =>
    have hbehind := hline (hls behind (List.mem_cons_self ..))
    refine ⟨behind, lines (unlines ls ++ w), ?_, hbehind⟩
    rw [unlines_cons, List.append_assoc, List.cons_append, ← List.append_assoc,
      lines_append_newline hbehind]

/-! ## Lines of the header -/

section

variable {line : List Char} (settled pending rest : List (List Char))

/-- A blank line settles the comment lines above it. -/
theorem headerFrom_blank (h : trimStart line = []) :
    headerFrom settled pending (line :: rest) = headerFrom (settled ++ pending) [] rest := by
  rw [headerFrom, trim_eq_nil_iff.2 h]

/-- A comment line waits for a blank line. -/
theorem headerFrom_comment (h : isCommentLine line = true) :
    headerFrom settled pending (line :: rest) =
      headerFrom settled (pending ++ [trim line]) rest := by
  rw [isCommentLine, List.isPrefixOf_iff_prefix, ← slashes_trim_iff] at h
  have hprefix : ['/', '/'].isPrefixOf (trim line) = true := List.isPrefixOf_iff_prefix.2 h
  rw [headerFrom]
  split
  · rename_i hnil
    rw [hnil] at h
    simp at h
  · exact if_pos hprefix

/-- Any other line ends the header. -/
theorem headerFrom_code (h : ¬ Bare line) :
    headerFrom settled pending (line :: rest) = settled := by
  rw [bare_iff_trim, Bool.or_eq_true, not_or, List.isEmpty_iff] at h
  rw [headerFrom]
  split
  · rename_i hnil
    exact absurd hnil h.1
  · exact if_neg h.2

end

theorem bare_iff {line : List Char} :
    Bare line ↔ trimStart line = [] ∨ isCommentLine line = true := by
  rw [Bare, isCommentLine, List.isPrefixOf_iff_prefix]

/-- The header goes on behind a bare line. -/
theorem headerFrom_bare {line : List Char} (h : Bare line) (settled pending : List (List Char)) :
    ∃ settled' pending', ∀ rest,
      headerFrom settled pending (line :: rest) = headerFrom settled' pending' rest := by
  rcases bare_iff.1 h with hblank | hcomment
  · exact ⟨_, _, fun rest => headerFrom_blank settled pending rest hblank⟩
  · exact ⟨_, _, fun rest => headerFrom_comment settled pending rest hcomment⟩

theorem headerFrom_bareLines {above : List (List Char)} (h : ∀ line ∈ above, Bare line) :
    ∀ settled pending, ∃ settled' pending', ∀ rest,
      headerFrom settled pending (above ++ rest) = headerFrom settled' pending' rest := by
  induction above with
  | nil => exact fun settled pending => ⟨settled, pending, fun _ => rfl⟩
  | cons line above ih =>
    intro settled pending
    obtain ⟨settled', pending', hline⟩ := headerFrom_bare (h line List.mem_cons_self) settled pending
    obtain ⟨settled'', pending'', habove⟩ :=
      ih (fun other hother => h other (List.mem_cons_of_mem _ hother)) settled' pending'
    exact ⟨settled'', pending'', fun rest => (hline _).trans (habove rest)⟩

theorem headerFrom_commentLines {comments : List (List Char)}
    (h : ∀ line ∈ comments, isCommentLine line = true) (settled pending rest : List (List Char)) :
    headerFrom settled pending (comments ++ rest) =
      headerFrom settled (pending ++ comments.map trim) rest := by
  induction comments generalizing pending with
  | nil => rw [List.nil_append, List.map_nil, List.append_nil]
  | cons line comments ih =>
    rw [List.cons_append, headerFrom_comment _ _ _ (h line List.mem_cons_self),
      ih fun other hother => h other (List.mem_cons_of_mem _ hother), List.map_cons,
      List.append_assoc, List.singleton_append]

theorem blank_or_comment_of_bare {line : List Char} (h : Bare line) :
    (∀ c ∈ line, isBlank c = true) ∨ isCommentLine line = true := by
  rwa [bare_iff, trimStart, List.dropWhile_eq_nil_iff] at h

/-- A bare line leads from code to code. -/
theorem scan_bare {line : List Char} (hline : '\n' ∉ line) (h : Bare line) (rest : List Char) :
    scan .code (line ++ '\n' :: rest) = scan .code rest := by
  rcases blank_or_comment_of_bare h with hblank | hcomment
  · rw [scan_code_append (scan_plain fun c hc => isPlain_of_isBlank (hblank c hc))]
    rfl
  · exact scan_commentLine hline hcomment rest

/-- A line with code is not bare. -/
theorem not_bare {front behind : List Char} {c : Char} (hline : '\n' ∉ front ++ c :: behind)
    (hcode : scan .code front = .code) (hblank : isBlank c = false) (hslash : c ≠ '/') :
    ¬ Bare (front ++ c :: behind) := by
  intro h
  rcases blank_or_comment_of_bare h with hall | hcomment
  · rw [hall c (List.mem_append_right _ (List.mem_cons_self ..))] at hblank
    simp at hblank
  · have hcut : front ++ c :: behind ++ ['\n'] = front ++ c :: (behind ++ ['\n']) := by simp
    rcases blank_of_commentLine hline hcomment hcut hcode with hc | hc
    · rw [hc] at hblank
      simp at hblank
    · exact hslash hc

/-! ## The header -/

/-- What stands behind a character of the code is not part of the header. -/
theorem headerFrom_congr {c : Char} (hblank : isBlank c = false) (hslash : c ≠ '/')
    {ls : List (List Char)} {w : List Char} (hls : ∀ l ∈ ls, '\n' ∉ l) (hw : '\n' ∉ w)
    (x y : List Char) :
    scan .code (unlines ls ++ w) = .code → ∀ settled pending,
      headerFrom settled pending (lines (unlines ls ++ (w ++ c :: x))) =
        headerFrom settled pending (lines (unlines ls ++ (w ++ c :: y))) := by
  -- The lines in front of the character are the same in both texts; the one it is on is not bare.
  induction ls with
  | nil =>
    intro hcode settled pending
    have hline : '\n' ∉ w ++ [c] := by
      rw [List.mem_append, List.mem_singleton, not_or]
      refine ⟨hw, ?_⟩
      rintro rfl
      exact absurd hblank (by decide)
    have hends : ∀ rest, headerFrom settled pending (lines (w ++ c :: rest)) = settled := by
      intro rest
      obtain ⟨behind, others, hlines, hfirst⟩ := exists_lines hline (by simp) rest
      rw [List.append_assoc, List.singleton_append] at hfirst
      rw [List.append_assoc, List.append_assoc, List.singleton_append, List.singleton_append]
        at hlines
      rw [hlines]
      exact headerFrom_code settled pending others (not_bare hfirst hcode hblank hslash)
    exact (hends x).trans (hends y).symm
  | cons l ls ih =>
    intro hcode settled pending
    have hl := hls l (List.mem_cons_self ..)
    have hsplit : ∀ rest, lines (unlines (l :: ls) ++ rest) = l :: lines (unlines ls ++ rest) := by
      intro rest
      rw [unlines_cons, List.append_assoc, List.cons_append, lines_append_newline hl]
    rw [hsplit, hsplit]
    by_cases hbare : Bare l
    · -- A bare line leads from code to code, so the hypothesis carries over to the lines behind it.
      obtain ⟨settled', pending', hgoes⟩ := headerFrom_bare hbare settled pending
      rw [hgoes, hgoes]
      rw [unlines_cons, List.append_assoc, List.cons_append, scan_bare hl hbare] at hcode
      exact ih (fun m hm => hls m (List.mem_cons_of_mem _ hm)) hcode settled' pending'
    · rw [headerFrom_code _ _ _ hbare, headerFrom_code _ _ _ hbare]

/-- **The build constraints of a file are settled in front of its code.** -/
theorem allowsSource_congr {before x y : List Char} {c : Char} (hcode : scan .code before = .code)
    (hblank : isBlank c = false) (hslash : c ≠ '/') (p : Platform) :
    p.allowsSource (String.ofList (before ++ c :: x)) =
      p.allowsSource (String.ofList (before ++ c :: y)) := by
  obtain ⟨ls, w, rfl, hls, hw⟩ := exists_unlines before
  rw [Platform.allowsSource, Platform.allowsSource, constraintHeader, constraintHeader,
    String.toList_ofList, String.toList_ofList, List.append_assoc, List.append_assoc,
    headerFrom_congr hblank hslash hls hw x y hcode]

end PinnedImports.Build
