import Mathlib.Tactic.Common
import PinnedImports.Proofs.Go.Reading

/-!
# Blanks, comments and terminators as texts

`Blanks` holds of the texts that consist of whole blanks and comments, and `Closing` of those that
end with the terminator of a line. What a text of either kind is does not depend on the text behind
it (`gapLength_append`, `read_terminator_append`), and what the grammar passes between two tokens is
a text of that kind (`blanks_take_gapLength`, `closing_of_read`). So such a piece of a source can be
moved to another place.
-/

set_option autoImplicit false

namespace PinnedImports.Go

/-- Whole blanks and comments. -/
inductive Blanks : List Char → Prop
  | nil : Blanks []
  | gap {c : Char} {cs : List Char} : isGap c = true → Blanks cs → Blanks (c :: cs)
  | line {body cs : List Char} :
      '\n' ∉ body → Blanks cs → Blanks ('/' :: '/' :: (body ++ '\n' :: cs))
  | block {body cs : List Char} :
      closesComment (body ++ ['*']) = false → Blanks cs →
        Blanks ('/' :: '*' :: (body ++ '*' :: '/' :: cs))

/-- Blanks and comments on a line, with the terminator at its end. -/
inductive Closing : List Char → Prop
  | mark {c : Char} : isTerminator c = true → Closing [c]
  | gap {c : Char} {cs : List Char} : isGap c = true → c ≠ '\n' → Closing cs → Closing (c :: cs)
  | line {body : List Char} : '\n' ∉ body → Closing ('/' :: '/' :: (body ++ ['\n']))
  | block {body cs : List Char} :
      closesComment (body ++ ['*']) = false → Closing cs →
        Closing ('/' :: '*' :: (body ++ '*' :: '/' :: cs))

/-- A character that starts a token. -/
def isSolid (c : Char) : Bool := !isGap c && c != '/'

theorem isSolid_iff {c : Char} : isSolid c = true ↔ isGap c = false ∧ c ≠ '/' := by
  simp [isSolid]

/-! ## The scan of a gap -/

theorem gapLength_solid (newlineEnds : Bool) {c : Char} (hc : isSolid c = true)
    (cs : List Char) : gapLength newlineEnds .between (c :: cs) = 0 := by
  obtain ⟨hgap, hslash⟩ := isSolid_iff.1 hc
  rw [gapLength]
  · simp [hgap]
  · intro rest h
    exact absurd h hslash
  · intro rest h
    exact absurd h hslash

theorem ne_slash_of_isGap {c : Char} (h : isGap c = true) : c ≠ '/' := by
  rintro rfl
  exact absurd h (by decide)

theorem gapLength_lineComment_append (newlineEnds : Bool) {body : List Char} (h : '\n' ∉ body)
    (cs : List Char) :
    gapLength newlineEnds .lineComment (body ++ '\n' :: cs) =
      body.length + if newlineEnds then 0 else gapLength newlineEnds .between cs + 1 := by
  induction body with
  | nil => simp [gapLength]
  | cons c body ih =>
    rw [List.mem_cons, not_or] at h
    have hc : (c == '\n') = false := beq_false_of_ne (Ne.symm h.1)
    rw [List.cons_append, gapLength, hc, ih h.2, List.length_cons]
    simp only [Bool.false_eq_true, if_false]
    omega

theorem closesComment_cons_of_append {c : Char} {body : List Char}
    (h : closesComment (c :: body ++ ['*']) = false) : closesComment (body ++ ['*']) = false := by
  rw [List.cons_append, closesComment.eq_def] at h
  split at h
  · simp at h
  · rename_i hcons
    rw [List.cons.injEq] at hcons
    rw [hcons.2]
    exact h
  · rename_i hnil
    simp at hnil

theorem gapLength_blockComment_append (newlineEnds : Bool) {body : List Char}
    (h : closesComment (body ++ ['*']) = false) (cs : List Char) :
    gapLength newlineEnds .blockComment (body ++ '*' :: '/' :: cs) =
      body.length + 2 + gapLength newlineEnds .between cs := by
  induction body with
  | nil => rw [List.nil_append, gapLength]; simp; omega
  | cons c body ih =>
    rw [List.cons_append, gapLength, ih (closesComment_cons_of_append h), List.length_cons]
    · omega
    · -- A star and a slash at the front would close the comment before its end.
      rintro rest rfl hrest
      cases body with
      | nil => simp at hrest
      | cons d body =>
        rw [List.cons_append, List.cons.injEq] at hrest
        obtain ⟨rfl, -⟩ := hrest
        simp [closesComment] at h

theorem closesComment_append (body cs : List Char) :
    closesComment (body ++ '*' :: '/' :: cs) = true := by
  induction body with
  | nil => rfl
  | cons c body ih =>
    rw [List.cons_append, closesComment.eq_def]
    split
    · rfl
    · rename_i hcons
      rw [List.cons.injEq] at hcons
      rw [← hcons.2]
      exact ih
    · rename_i hnil
      simp at hnil

/-- Blanks are passed as a whole, whatever follows. -/
theorem gapLength_append {blanks : List Char} (h : Blanks blanks) (cs : List Char) :
    gapLength false .between (blanks ++ cs) = blanks.length + gapLength false .between cs := by
  induction h with
  | nil => simp
  | @gap c blanks hc _ ih =>
    rw [List.cons_append, gapLength_between_of_ne false (ne_slash_of_isGap hc), hc, ih]
    simp only [Bool.false_and, Bool.not_false, Bool.and_self, if_true, List.length_cons]
    omega
  | @line body blanks hb _ ih =>
    rw [List.cons_append, List.cons_append, List.append_assoc, List.cons_append, gapLength,
      gapLength_lineComment_append false hb, ih]
    simp only [Bool.false_eq_true, if_false, List.length_cons, List.length_append]
    omega
  | @block body blanks hb _ ih =>
    rw [List.cons_append, List.cons_append, List.append_assoc, List.cons_append,
      List.cons_append, gapLength, closesComment_append, if_pos rfl,
      gapLength_blockComment_append false hb, ih]
    simp only [List.length_cons, List.length_append]
    omega

theorem Blanks.append {a b : List Char} (ha : Blanks a) (hb : Blanks b) : Blanks (a ++ b) := by
  induction ha with
  | nil => exact hb
  | gap hc _ ih => exact .gap hc ih
  | line hbody _ ih =>
    rw [List.cons_append, List.cons_append, List.append_assoc, List.cons_append]
    exact .line hbody ih
  | block hbody _ ih =>
    rw [List.cons_append, List.cons_append, List.append_assoc, List.cons_append,
      List.cons_append]
    exact .block hbody ih

/-- Behind blanks stands what stands behind them without the gap in front of it. -/
theorem afterGap_append {blanks : List Char} (h : Blanks blanks) (cs : List Char) :
    afterGap false (blanks ++ cs) = afterGap false cs := by
  rw [afterGap, afterGap, gapLength_append h, List.drop_append, List.drop_of_length_le (by omega),
    List.nil_append, Nat.add_sub_cancel_left]

theorem afterGap_solid (newlineEnds : Bool) {c : Char} (hc : isSolid c = true)
    (cs : List Char) : afterGap newlineEnds (c :: cs) = c :: cs := by
  rw [afterGap, gapLength_solid newlineEnds hc, List.drop_zero]

/-! ## Gaps of a source are such texts -/

/-- What the scan of a gap passes from each of its states, where the text goes on behind it. -/
def GapState.Passes : GapState → List Char → Prop
  | .between, cs => Blanks cs
  | .lineComment, cs => ∃ body blanks, '\n' ∉ body ∧ Blanks blanks ∧ cs = body ++ '\n' :: blanks
  | .blockComment, cs =>
    ∃ body blanks, closesComment (body ++ ['*']) = false ∧ Blanks blanks ∧
      cs = body ++ '*' :: '/' :: blanks

theorem closesComment_cons {c : Char} {cs : List Char} (h : closesComment (c :: cs) = true)
    (hc : ∀ rest, c = '*' → cs = '/' :: rest → False) : closesComment cs = true := by
  rw [closesComment.eq_def] at h
  split at h
  · rename_i rest hcons
    rw [List.cons.injEq] at hcons
    exact (hc rest hcons.1 hcons.2).elim
  · rename_i hcons
    rw [List.cons.injEq] at hcons
    rw [hcons.2]
    exact h
  · simp at h

theorem not_closesComment_cons {c : Char} {body : List Char} (cs : List Char)
    (hc : ∀ rest, c = '*' → body ++ '*' :: '/' :: cs = '/' :: rest → False)
    (h : closesComment (body ++ ['*']) = false) : closesComment (c :: body ++ ['*']) = false := by
  by_contra hclose
  rw [Bool.not_eq_false, List.cons_append] at hclose
  rw [closesComment_cons hclose] at h
  · simp at h
  · intro rest hstar hrest
    cases body with
    | nil => simp at hrest
    | cons d body =>
      rw [List.cons_append, List.cons.injEq] at hrest
      exact hc (body ++ '*' :: '/' :: cs) hstar (by rw [List.cons_append, hrest.1])

/-- A gap with text behind it consists of whole blanks and comments. -/
theorem passes_take_gapLength (state : GapState) (cs : List Char)
    (hblock : state = .blockComment → closesComment cs = true)
    (h : gapLength false state cs < cs.length) :
    state.Passes (cs.take (gapLength false state cs)) := by
  -- The cases are those of the scan. In a comment the text is cut at its end, so what the scan has
  -- passed in front of that is kept as `body`.
  induction state, cs using gapLength.induct false with
  | case1 rest ih =>
    rw [gapLength, List.length_cons, List.length_cons] at h
    obtain ⟨body, blanks, hbody, hblanks, heq⟩ := ih (by simp) (by omega)
    rw [gapLength, List.take_succ_cons, List.take_succ_cons, heq]
    exact Blanks.line hbody hblanks
  | case2 rest hclose ih =>
    rw [gapLength, if_pos hclose, List.length_cons, List.length_cons] at h
    obtain ⟨body, blanks, hbody, hblanks, heq⟩ := ih (fun _ => hclose) (by omega)
    rw [gapLength, if_pos hclose, List.take_succ_cons, List.take_succ_cons, heq]
    exact Blanks.block hbody hblanks
  | case3 rest hclose =>
    rw [gapLength, if_neg hclose]
    exact Blanks.nil
  | case4 c rest hline hblock' hgap ih =>
    rw [gapLength_between false hline hblock', if_pos hgap, List.length_cons] at h
    rw [gapLength_between false hline hblock', if_pos hgap, List.take_succ_cons]
    refine Blanks.gap ?_ (ih (by simp) (by omega))
    simpa using hgap
  | case5 c rest hline hblock' hgap =>
    rw [gapLength_between false hline hblock', if_neg hgap]
    exact Blanks.nil
  | case6 c rest hc hends => simp at hends
  | case7 c rest hc hends ih =>
    rw [gapLength, if_pos hc, if_neg hends, List.length_cons] at h
    rw [gapLength, if_pos hc, if_neg hends, List.take_succ_cons, eq_of_beq hc]
    exact ⟨[], _, by simp, ih (by simp) (by omega), rfl⟩
  | case8 c rest hc ih =>
    rw [gapLength, if_neg hc, List.length_cons] at h
    obtain ⟨body, blanks, hbody, hblanks, heq⟩ := ih (by simp) (by omega)
    rw [gapLength, if_neg hc, List.take_succ_cons, heq]
    refine ⟨c :: body, blanks, ?_, hblanks, rfl⟩
    rw [List.mem_cons, not_or]
    exact ⟨fun hnl => hc (beq_iff_eq.2 hnl.symm), hbody⟩
  | case9 rest ih =>
    rw [gapLength, List.length_cons, List.length_cons] at h
    rw [gapLength, List.take_succ_cons, List.take_succ_cons]
    exact ⟨[], _, rfl, ih (by simp) (by omega), rfl⟩
  | case10 c rest hc ih =>
    have hclose := closesComment_cons (hblock rfl) hc
    rw [gapLength_blockComment false hc, List.length_cons] at h
    obtain ⟨body, blanks, hbody, hblanks, heq⟩ := ih (fun _ => hclose) (by omega)
    rw [gapLength_blockComment false hc, List.take_succ_cons, heq]
    refine ⟨c :: body, blanks, not_closesComment_cons blanks ?_ hbody, hblanks, rfl⟩
    intro tail hstar htail
    have hrest := List.take_append_drop (gapLength false .blockComment rest) rest
    rw [heq, htail, List.cons_append] at hrest
    exact hc _ hstar hrest.symm
  | case11 state => simp at h

theorem blanks_take_gapLength {cs : List Char} (h : afterGap false cs ≠ []) :
    Blanks (cs.take (gapLength false .between cs)) := by
  refine passes_take_gapLength .between cs (by simp) ?_
  by_contra hlen
  exact h (List.drop_of_length_le (by omega))

theorem gapLength_afterGap {cs : List Char} (h : afterGap false cs ≠ []) :
    gapLength false .between (afterGap false cs) = 0 := by
  have hlen := gapLength_append (blanks_take_gapLength h) (afterGap false cs)
  rw [afterGap, List.take_append_drop, List.length_take] at hlen
  rw [afterGap]
  have hle : gapLength false .between cs ≤ cs.length := by
    by_contra hlt
    exact h (List.drop_of_length_le (by omega))
  omega

/-- A text with a token in it is blanks and comments and then what follows the gap. -/
theorem exists_blanks {cs : List Char} (h : afterGap false cs ≠ []) :
    ∃ blanks, Blanks blanks ∧ cs = blanks ++ afterGap false cs :=
  ⟨_, blanks_take_gapLength h, (List.take_append_drop _ cs).symm⟩

/-! ## Terminators -/

/-- What the scan of a gap passes from each of its states up to and with a terminator. -/
def GapState.Closes : GapState → List Char → Prop
  | .between, cs => Closing cs
  | .lineComment, cs => ∃ body, '\n' ∉ body ∧ cs = body ++ ['\n']
  | .blockComment, cs =>
    ∃ body closing, closesComment (body ++ ['*']) = false ∧ Closing closing ∧
      cs = body ++ '*' :: '/' :: closing

theorem isTerminator_slash : isTerminator '/' = false := by decide

theorem closes_take_gapLength (state : GapState) (cs : List Char) {c : Char} {rest : List Char}
    (hblock : state = .blockComment → closesComment cs = true)
    (h : cs.drop (gapLength true state cs) = c :: rest) (hc : isTerminator c = true) :
    state.Closes (cs.take (gapLength true state cs) ++ [c]) := by
  -- As for gaps, but line comments end the scan at their line break, which is the terminator.
  induction state, cs using gapLength.induct true with
  | case1 tail ih =>
    rw [gapLength, List.drop_succ_cons, List.drop_succ_cons] at h
    obtain ⟨body, hbody, heq⟩ := ih (by simp) h
    rw [gapLength, List.take_succ_cons, List.take_succ_cons, List.cons_append, List.cons_append,
      heq]
    exact Closing.line hbody
  | case2 tail hclose ih =>
    rw [gapLength, if_pos hclose, List.drop_succ_cons, List.drop_succ_cons] at h
    obtain ⟨body, closing, hbody, hclosing, heq⟩ := ih (fun _ => hclose) h
    rw [gapLength, if_pos hclose, List.take_succ_cons, List.take_succ_cons, List.cons_append,
      List.cons_append, heq]
    exact Closing.block hbody hclosing
  | case3 tail hclose =>
    rw [gapLength, if_neg hclose, List.drop_zero, List.cons.injEq] at h
    rw [← h.1, isTerminator_slash] at hc
    simp at hc
  | case4 d tail hline hblock' hgap ih =>
    rw [gapLength_between true hline hblock', if_pos hgap, List.drop_succ_cons] at h
    rw [gapLength_between true hline hblock', if_pos hgap, List.take_succ_cons, List.cons_append]
    rw [Bool.and_eq_true] at hgap
    exact Closing.gap hgap.1 (by simpa using hgap.2) (ih (by simp) h)
  | case5 d tail hline hblock' hgap =>
    rw [gapLength_between true hline hblock', if_neg hgap]
    exact Closing.mark hc
  | case6 d tail hd hends =>
    rw [gapLength, if_pos hd, if_pos rfl, List.drop_zero, List.cons.injEq] at h
    rw [gapLength, if_pos hd, if_pos rfl, ← h.1, eq_of_beq hd]
    exact ⟨[], by simp, rfl⟩
  | case7 d tail hd hends => simp at hends
  | case8 d tail hd ih =>
    rw [gapLength, if_neg hd, List.drop_succ_cons] at h
    obtain ⟨body, hbody, heq⟩ := ih (by simp) h
    rw [gapLength, if_neg hd, List.take_succ_cons, List.cons_append, heq]
    refine ⟨d :: body, ?_, rfl⟩
    rw [List.mem_cons, not_or]
    exact ⟨fun hnl => hd (beq_iff_eq.2 hnl.symm), hbody⟩
  | case9 tail ih =>
    rw [gapLength, List.drop_succ_cons, List.drop_succ_cons] at h
    rw [gapLength, List.take_succ_cons, List.take_succ_cons, List.cons_append, List.cons_append]
    exact ⟨[], _, rfl, ih (by simp) h, rfl⟩
  | case10 d tail hd ih =>
    have hclose := closesComment_cons (hblock rfl) hd
    rw [gapLength_blockComment true hd, List.drop_succ_cons] at h
    obtain ⟨body, closing, hbody, hclosing, heq⟩ := ih (fun _ => hclose) h
    rw [gapLength_blockComment true hd, List.take_succ_cons, List.cons_append, heq]
    refine ⟨d :: body, closing, not_closesComment_cons closing ?_ hbody, hclosing, rfl⟩
    intro later hstar hlater
    have htail := List.take_append_drop (gapLength true .blockComment tail) tail
    rw [h, ← List.singleton_append, ← List.append_assoc, heq, hlater, List.cons_append] at htail
    exact hd _ hstar htail.symm
  | case11 state => simp at h

namespace Parser

theorem read_terminator (cs : List Char) :
    terminator.read cs = match afterGap true cs with
      | c :: rest => if isTerminator c then some ((), rest) else none
      | [] => none := by
  rw [terminator, read_bind, gap, read_map, read_pass]
  simp only [Option.map_some, Option.bind_some, read_bind, read_pass, read_pure]
  rw [← afterGap]
  cases afterGap true cs with
  | nil => rfl
  | cons c rest => by_cases hc : isTerminator c = true <;> simp [Measure.one, hc]

/-- A terminator is read with the blanks and comments on its line, and these do not depend on what
follows. -/
theorem closing_of_read {cs rest : List Char} (h : terminator.read cs = some ((), rest)) :
    ∃ closing, Closing closing ∧ cs = closing ++ rest := by
  rw [read_terminator] at h
  split at h
  · rename_i c tail heq
    split at h
    · rename_i hc
      rw [Option.some.injEq, Prod.mk.injEq] at h
      obtain ⟨-, rfl⟩ := h
      refine ⟨_, closes_take_gapLength .between cs (by simp) heq hc, ?_⟩
      rw [List.append_assoc, List.singleton_append, ← heq, afterGap, List.take_append_drop]
    · simp at h
  · simp at h

end Parser

theorem isGap_false_of_isTerminator {c : Char} (h : isTerminator c = true) (hc : c ≠ '\n') :
    isGap c = false := by
  simp only [isTerminator, Bool.or_eq_true, decide_eq_true_eq] at h
  rcases h with (rfl | rfl) | rfl
  · exact absurd rfl hc
  · decide
  · decide

theorem ne_slash_of_isTerminator {c : Char} (h : isTerminator c = true) : c ≠ '/' := by
  rintro rfl
  exact absurd h (by decide)

theorem gapLength_terminator {c : Char} (hc : isTerminator c = true) (rest : List Char) :
    gapLength true .between (c :: rest) = 0 := by
  have hstop : (isGap c && !(true && c == '\n')) = false := by
    by_cases hnl : c = '\n'
    · subst hnl
      decide
    · rw [isGap_false_of_isTerminator hc hnl, Bool.false_and]
  rw [gapLength_between_of_ne true (ne_slash_of_isTerminator hc), hstop]
  rfl

/-- A closing text is a gap and the terminator behind it. -/
theorem Closing.exists_gap {closing : List Char} (h : Closing closing) :
    ∃ gap c, isTerminator c = true ∧ closing = gap ++ [c] ∧
      ∀ rest, gapLength true .between (gap ++ c :: rest) = gap.length := by
  induction h with
  | @mark c hc => exact ⟨[], c, hc, rfl, fun rest => gapLength_terminator hc rest⟩
  | @gap d closing hd hnl _ ih =>
    obtain ⟨gap, c, hc, rfl, hlen⟩ := ih
    refine ⟨d :: gap, c, hc, rfl, fun rest => ?_⟩
    rw [List.cons_append, gapLength_between_of_ne true (ne_slash_of_isGap hd), hd,
      beq_false_of_ne hnl, hlen]
    rfl
  | @line body hbody =>
    refine ⟨'/' :: '/' :: body, '\n', by decide, rfl, fun rest => ?_⟩
    rw [List.cons_append, List.cons_append, gapLength, gapLength_lineComment_append true hbody]
    rfl
  | @block body closing hbody _ ih =>
    obtain ⟨gap, c, hc, rfl, hlen⟩ := ih
    refine ⟨'/' :: '*' :: (body ++ '*' :: '/' :: gap), c, hc, by simp, fun rest => ?_⟩
    rw [List.cons_append, List.cons_append, List.append_assoc, List.cons_append,
      List.cons_append, gapLength, closesComment_append, if_pos rfl,
      gapLength_blockComment_append true hbody, hlen]
    simp only [List.length_cons, List.length_append]
    omega

/-- A closing text is read as a terminator, whatever follows. -/
theorem Parser.read_terminator_append {closing : List Char} (h : Closing closing)
    (rest : List Char) : terminator.read (closing ++ rest) = some ((), rest) := by
  obtain ⟨gap, c, hc, rfl, hlen⟩ := h.exists_gap
  rw [List.append_assoc, List.singleton_append, read_terminator, afterGap, hlen, List.drop_left]
  simp only [hc, if_true]

end PinnedImports.Go
