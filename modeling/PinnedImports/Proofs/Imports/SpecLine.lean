import Mathlib.Data.List.DropRight
import PinnedImports.Imports.Block
import PinnedImports.Proofs.Text.Splice

/-!
# The line of a specification

Where a text is cut in front of a specification and behind it, its line is told by the two pieces:
from the last line break of the piece in front to the first line break of the piece behind. The run
of comment lines above it ends the piece in front of the line.
-/

set_option autoImplicit false

namespace PinnedImports.Imports

open Text

/-- A text that ends where a line begins. -/
def LineEnded (text : List Char) : Prop := ∀ c ∈ text.getLast?, c = '\n'

/-- Lines with their line breaks. -/
def unlines (ls : List (List Char)) : List Char := ls.flatMap (· ++ ['\n'])

@[simp] theorem unlines_nil : unlines [] = [] := rfl

@[simp] theorem unlines_cons (l : List Char) (ls : List (List Char)) :
    unlines (l :: ls) = l ++ '\n' :: unlines ls := by
  simp [unlines]

@[simp] theorem unlines_append (a b : List (List Char)) :
    unlines (a ++ b) = unlines a ++ unlines b := by
  simp [unlines]

theorem lineEnded_nil : LineEnded [] := by
  intro c hc
  simp at hc

theorem lineEnded_append_newline (text : List Char) : LineEnded (text ++ ['\n']) := by
  intro c hc
  rw [List.getLast?_append, List.getLast?_singleton, Option.some_or, Option.mem_some_iff] at hc
  exact hc.symm

theorem LineEnded.of_append {a b : List Char} (h : LineEnded (a ++ b)) : LineEnded b := by
  by_cases hb : b = []
  · subst hb
    exact lineEnded_nil
  · intro c hc
    exact h c (by rw [List.getLast?_append_of_ne_nil _ hb]; exact hc)

theorem lineEnded_unlines (ls : List (List Char)) : LineEnded (unlines ls) := by
  rcases ls.eq_nil_or_concat with rfl | ⟨init, l, rfl⟩
  · exact lineEnded_nil
  · rw [List.concat_eq_append, unlines_append, unlines_cons, unlines_nil, ← List.append_assoc]
    exact lineEnded_append_newline _

theorem byteLength_reverse (cs : List Char) : byteLength cs.reverse = byteLength cs := by
  induction cs with
  | nil => rfl
  | cons c cs ih =>
    rw [List.reverse_cons, byteLength_append, ih, byteLength_cons, byteLength_cons, byteLength_nil]
    omega

/-- A text is the lines before its last line break and what stands behind it. -/
theorem exists_unlines (text : List Char) :
    ∃ ls w, text = unlines ls ++ w ∧ (∀ l ∈ ls, '\n' ∉ l) ∧ '\n' ∉ w := by
  induction text with
  | nil => exact ⟨[], [], rfl, by simp, by simp⟩
  | cons c text ih =>
    obtain ⟨ls, w, htext, hls, hw⟩ := ih
    by_cases hc : c = '\n'
    · subst hc
      refine ⟨[] :: ls, w, by rw [htext]; simp, ?_, hw⟩
      intro l hl
      rcases List.mem_cons.1 hl with rfl | hl
      · simp
      · exact hls l hl
    · cases ls with
      | nil =>
        refine ⟨[], c :: w, by rw [htext]; rfl, by simp, ?_⟩
        rw [List.mem_cons, not_or]
        exact ⟨Ne.symm hc, hw⟩
      | cons l ls =>
        refine ⟨(c :: l) :: ls, w, by rw [htext]; simp, ?_, hw⟩
        intro m hm
        rcases List.mem_cons.1 hm with rfl | hm
        · rw [List.mem_cons, not_or]
          exact ⟨Ne.symm hc, hls l (List.mem_cons_self ..)⟩
        · exact hls m (List.mem_cons_of_mem _ hm)

theorem split_line {l : List Char} (hl : '\n' ∉ l) (rest : List Char) :
    split (· == '\n') (l ++ '\n' :: rest) = l :: split (· == '\n') rest := by
  induction l with
  | nil => rfl
  | cons c l ih =>
    rw [List.mem_cons, not_or] at hl
    have hne : (c == '\n') = false := beq_false_of_ne (Ne.symm hl.1)
    rw [List.cons_append, split, hne, ih hl.2]
    rfl

theorem split_unlines {ls : List (List Char)} (hls : ∀ l ∈ ls, '\n' ∉ l) :
    split (· == '\n') (unlines ls) = ls ++ [[]] := by
  induction ls with
  | nil => rfl
  | cons l ls ih =>
    rw [unlines_cons, split_line (hls l (List.mem_cons_self ..)),
      ih fun m hm => hls m (List.mem_cons_of_mem _ hm), List.cons_append]

theorem takeWhile_reverse_unlines (ls : List (List Char)) {w : List Char} (hw : '\n' ∉ w) :
    (unlines ls ++ w).reverse.takeWhile (· != '\n') = w.reverse := by
  have hall : ∀ c ∈ w.reverse, (c != '\n') = true := by
    intro c hc
    rw [bne_iff_ne]
    rintro rfl
    exact hw (List.mem_reverse.1 hc)
  rw [List.reverse_append, List.takeWhile_append_of_pos hall]
  rcases ls.eq_nil_or_concat with rfl | ⟨init, l, rfl⟩
  · simp
  · simp

/-- The line that a place is on begins behind the last line break before the place. -/
theorem lineStart_eq (ls : List (List Char)) {w : List Char} (hw : '\n' ∉ w) (rest : List Char) :
    lineStart (unlines ls ++ w ++ rest) (byteLength (unlines ls ++ w)) =
      byteLength (unlines ls) := by
  rw [lineStart, takeBytes_byteLength, takeWhile_reverse_unlines ls hw, byteLength_reverse,
    byteLength_append]
  omega

/-- The line that a place is on ends before the first line break behind the place. -/
theorem lineStop_eq (text rest : List Char) :
    lineStop (text ++ rest) (byteLength text) =
      byteLength text + byteLength (rest.takeWhile (· != '\n')) := by
  rw [lineStop, dropBytes_byteLength]

theorem byteLength_unlines_reverse (ls : List (List Char)) :
    byteLength (unlines ls.reverse) = byteLength (unlines ls) := by
  induction ls with
  | nil => rfl
  | cons l ls ih =>
    rw [List.reverse_cons, unlines_append, byteLength_append, ih, unlines_cons, unlines_nil,
      unlines_cons]
    simp only [byteLength_append, byteLength_cons, byteLength_nil]
    omega

/-- The run of comment lines above a line begins behind the last line that is none. -/
theorem leadStart_unlines {ls : List (List Char)} (hls : ∀ l ∈ ls, '\n' ∉ l) (rest : List Char) :
    leadStart (unlines ls ++ rest) (byteLength (unlines ls)) =
      byteLength (unlines (ls.rdropWhile isCommentLine)) := by
  have habove : (split (· == '\n') (unlines ls)).reverse.drop 1 = ls.reverse := by
    rw [split_unlines hls, List.reverse_append]
    rfl
  have htotal : byteLength (unlines ls) =
      byteLength (unlines (ls.reverse.takeWhile isCommentLine)) +
        byteLength (unlines (ls.reverse.dropWhile isCommentLine)) := by
    rw [← byteLength_append, ← unlines_append, List.takeWhile_append_dropWhile,
      byteLength_unlines_reverse]
  rw [leadStart, takeBytes_byteLength, habove, ← unlines, List.rdropWhile,
    byteLength_unlines_reverse]
  omega

/-- The comment lines above a line end what stands before it. -/
theorem exists_lead {ls : List (List Char)} (hls : ∀ l ∈ ls, '\n' ∉ l) (rest : List Char) :
    ∃ above comment, ls = above ++ comment ∧ (∀ l ∈ comment, isCommentLine l = true) ∧
      leadStart (unlines ls ++ rest) (byteLength (unlines ls)) = byteLength (unlines above) :=
  ⟨ls.rdropWhile isCommentLine, ls.rtakeWhile isCommentLine,
    List.rdropWhile_append_rtakeWhile.symm, fun _ => List.mem_rtakeWhile_imp,
    leadStart_unlines hls rest⟩

/-! ## What may stand behind a specification -/

/-- A text that is blank or whose first characters that are not blank begin a line comment. -/
def Bare (text : List Char) : Prop := trimStart text = [] ∨ ['/', '/'] <+: trimStart text

instance (text : List Char) : Decidable (Bare text) :=
  inferInstanceAs (Decidable (trimStart text = [] ∨ ['/', '/'] <+: trimStart text))

theorem trimEnd_begins (text : List Char) : trimEnd text <+: text := by
  refine ⟨(text.reverse.takeWhile isBlank).reverse, ?_⟩
  rw [trimEnd, ← List.reverse_append, List.takeWhile_append_dropWhile, List.reverse_reverse]

theorem trimEnd_cons {c : Char} (hc : isBlank c = false) (cs : List Char) :
    trimEnd (c :: cs) = c :: trimEnd cs := by
  have hlast : [c].dropWhile isBlank = [c] := List.dropWhile_cons_of_neg (by rw [hc]; simp)
  rw [trimEnd, trimEnd, List.reverse_cons, List.dropWhile_append]
  split
  · rename_i hnil
    rw [List.isEmpty_iff] at hnil
    rw [hlast, hnil]
    rfl
  · rw [List.reverse_append]
    rfl

/-- Behind the blanks at its front a text is empty or begins with a character that is no blank. -/
theorem trimStart_cases (text : List Char) :
    trimStart text = [] ∨ ∃ c cs, trimStart text = c :: cs ∧ isBlank c = false := by
  cases hstart : trimStart text with
  | nil => exact .inl rfl
  | cons c cs =>
    have hnot := List.head?_dropWhile_not isBlank text
    rw [← trimStart, hstart] at hnot
    exact .inr ⟨c, cs, rfl, hnot⟩

theorem trim_eq_nil_iff {text : List Char} : trim text = [] ↔ trimStart text = [] := by
  rw [trim]
  rcases trimStart_cases text with hnil | ⟨c, cs, hcons, hc⟩
  · rw [hnil]
    exact iff_of_true rfl rfl
  · rw [hcons, trimEnd_cons hc]
    simp

theorem slashes_trim_iff {text : List Char} :
    ['/', '/'] <+: trim text ↔ ['/', '/'] <+: trimStart text := by
  constructor
  · exact fun h => h.trans (trimEnd_begins _)
  · rintro ⟨body, hbody⟩
    rw [trim, ← hbody, List.cons_append, List.cons_append, List.nil_append,
      trimEnd_cons (by decide), trimEnd_cons (by decide)]
    exact ⟨trimEnd body, rfl⟩

/-- Whether a text is bare does not depend on the blanks at its end. -/
theorem bare_iff_trim {text : List Char} :
    Bare text ↔ ((trim text).isEmpty || ['/', '/'].isPrefixOf (trim text)) = true := by
  rw [Bool.or_eq_true, List.isEmpty_iff, List.isPrefixOf_iff_prefix, trim_eq_nil_iff,
    slashes_trim_iff, Bare]

theorem trimStart_blank {c : Char} (hc : isBlank c = true) (cs : List Char) :
    trimStart (c :: cs) = trimStart cs := by
  rw [trimStart, List.dropWhile_cons_of_pos hc, ← trimStart]

theorem trimStart_of_not_blank {c : Char} (hc : isBlank c = false) (cs : List Char) :
    trimStart (c :: cs) = c :: cs := by
  rw [trimStart, List.dropWhile_cons_of_neg (by rw [hc]; simp)]

theorem Bare.of_blank {c : Char} (hc : isBlank c = true) {cs : List Char} (h : Bare (c :: cs)) :
    Bare cs := by
  rw [Bare, trimStart_blank hc] at h
  exact h

/-- The first character of a bare text that is not blank is a slash, and so is the one behind it. -/
theorem Bare.slashes {c : Char} (hc : isBlank c = false) {cs : List Char} (h : Bare (c :: cs)) :
    c = '/' ∧ cs.head? = some '/' := by
  rw [Bare, trimStart_of_not_blank hc] at h
  rcases h with hnil | ⟨rest, hrest⟩
  · simp at hnil
  · rw [List.cons_append, List.cons.injEq] at hrest
    obtain ⟨rfl, rfl⟩ := hrest
    exact ⟨rfl, rfl⟩

/-! ## The parts of a line -/

/-- The pieces in front of a specification and behind it, cut at the line of the specification and
at the run of comment lines above. -/
structure LineParts (before behind : List Char) where
  above : List (List Char)
  comment : List (List Char)
  indent : List Char
  tail : List Char
  more : List Char
  before_eq : before = unlines above ++ (unlines comment ++ indent)
  behind_eq : behind = tail ++ more
  isComment : ∀ l ∈ comment, '\n' ∉ l ∧ isCommentLine l = true
  indent_blank : ∀ c ∈ indent, isBlank c = true ∧ c ≠ '\n'
  tail_line : '\n' ∉ tail
  tail_bare : Bare tail
  more_head : ∀ c ∈ more.head?, c = '\n'

/-- The lines of a specification of `size` bytes with these parts. -/
def LineParts.line {before behind : List Char} (parts : LineParts before behind) (size : Nat) :
    SpecLine where
  lead := byteLength (unlines parts.above)
  start := byteLength (unlines parts.above) + byteLength (unlines parts.comment)
  stop := byteLength before + size + byteLength parts.tail

/-- **The lines of a specification are told by the parts of its line.** -/
theorem exists_lineParts {before chars behind : List Char} {spec : Go.Import} {line : SpecLine}
    (hstart : spec.spec.start = byteLength before)
    (hstop : spec.spec.stop = byteLength before + byteLength chars)
    (h : specLine? (before ++ (chars ++ behind)) spec = some line) :
    ∃ parts : LineParts before behind, line = parts.line (byteLength chars) := by
  -- The text in front is cut at its lines, and these at the run of comment lines that ends them.
  obtain ⟨ls, indent, rfl, hls, hindent⟩ := exists_unlines before
  obtain ⟨above, comment, rfl, hcomment, hlead⟩ :=
    exists_lead hls (indent ++ (chars ++ behind))
  have hbegin := lineStart_eq (above ++ comment) hindent (chars ++ behind)
  have hend := lineStop_eq (unlines (above ++ comment) ++ indent ++ chars) behind
  have hsize : byteLength (unlines (above ++ comment) ++ indent ++ chars) = spec.spec.stop := by
    rw [hstop, byteLength_append]
  have hbefore := slice_append (unlines (above ++ comment)) indent (chars ++ behind)
  have hafter := slice_append (unlines (above ++ comment) ++ indent ++ chars)
    (behind.takeWhile (· != '\n')) (behind.dropWhile (· != '\n'))
  rw [List.takeWhile_append_dropWhile, hsize, List.append_assoc _ chars] at hafter
  rw [hsize, List.append_assoc _ chars] at hend
  rw [← List.append_assoc, ← byteLength_append, ← hstart] at hbefore
  rw [← hstart] at hbegin
  rw [← List.append_assoc] at hlead
  -- All places that are computed have been told by the pieces of the text.
  rw [specLine?] at h
  simp only [hbegin, hend, hbefore, hafter, hlead] at h
  split at h
  · rename_i halone
    rw [Bool.and_eq_true] at halone
    obtain ⟨hblank, hbare⟩ := halone
    rw [Option.some.injEq] at h
    rw [allBlank, List.all_eq_true] at hblank
    refine ⟨⟨above, comment, indent, behind.takeWhile (· != '\n'),
      behind.dropWhile (· != '\n'), by simp, List.takeWhile_append_dropWhile.symm,
      fun l hl => ⟨hls l (List.mem_append_right _ hl), hcomment l hl⟩,
      fun c hc => ⟨hblank c hc, ?_⟩, ?_, bare_iff_trim.2 hbare, ?_⟩, ?_⟩
    · rintro rfl
      exact hindent hc
    · intro hmem
      simpa using List.mem_takeWhile_imp hmem
    · intro c hc
      have hnot := List.head?_dropWhile_not (· != '\n') behind
      rw [Option.mem_def] at hc
      rw [hc] at hnot
      simpa using hnot
    · rw [← h]
      simp only [LineParts.line, hstop, unlines_append, byteLength_append]
  · simp at h

end PinnedImports.Imports
