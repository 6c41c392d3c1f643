import Mathlib.Data.List.Infix
import PinnedImports.Proofs.Go.Items
import PinnedImports.Proofs.Go.Lexemes
import PinnedImports.Proofs.Text.Splice

/-!
# A comment between two tokens

A `Seam` is a place of a text and a comment to stand there. It lies between two tokens (`Between`)
if no lexeme that is read in front of it reaches over it, be the comment there or not. What the
grammar can ask of the characters that are left then has the same answer in both texts (`Ahead`),
and what is left behind a lexeme is related as what was left before it (`Like`).
-/

set_option autoImplicit false

namespace PinnedImports.Go

/-- A comment, in front of the given text: closed by its last two characters, or ended by the line
break or the end of the text that follows. -/
inductive IsComment (back : List Char) : List Char → Prop
  | block {body : List Char} :
      closesComment (body ++ ['*']) = false →
        IsComment back ('/' :: '*' :: (body ++ ['*', '/']))
  | line {body : List Char} :
      '\n' ∉ body → (∀ c ∈ back.head?, c = '\n') → IsComment back ('/' :: '/' :: body)

theorem gapLength_lineComment_end (newlineEnds : Bool) {body : List Char} (h : '\n' ∉ body) :
    gapLength newlineEnds .lineComment body = body.length := by
  induction body with
  | nil => exact gapLength_nil _ _
  | cons c body ih =>
    rw [List.mem_cons, not_or] at h
    have hc : (c == '\n') = false := beq_false_of_ne (Ne.symm h.1)
    rw [gapLength, hc, ih h.2, List.length_cons]
    simp only [Bool.false_eq_true, if_false]

/-- A comment belongs to the gap in front of what follows. -/
theorem IsComment.gapLength {comment back : List Char} (h : IsComment back comment)
    (newlineEnds : Bool) :
    gapLength newlineEnds .between (comment ++ back) =
      comment.length + gapLength newlineEnds .between back := by
  cases h with
  | @block body hbody =>
    rw [List.cons_append, List.cons_append, List.append_assoc, List.cons_append, List.cons_append,
      List.nil_append, Go.gapLength, closesComment_append, if_pos rfl,
      gapLength_blockComment_append newlineEnds hbody]
    simp only [List.length_cons, List.length_append, List.length_nil]
    omega
  | @line body hbody hback =>
    rw [List.cons_append, List.cons_append, Go.gapLength]
    cases back with
    | nil =>
      rw [List.append_nil, gapLength_lineComment_end newlineEnds hbody, gapLength_nil]
      simp only [List.length_cons, Nat.add_zero]
    | cons c back =>
      obtain rfl : c = '\n' := hback c rfl
      rw [gapLength_lineComment_append newlineEnds hbody,
        gapLength_between_of_ne newlineEnds (by decide)]
      simp only [List.length_cons]
      cases newlineEnds with
      | true => simp
      | false =>
        have hgap : isGap '\n' = true := by decide
        simp only [hgap, Bool.false_and, Bool.not_false, Bool.and_self, if_true,
          Bool.false_eq_true, if_false]
        omega

theorem IsComment.afterGap {comment back : List Char} (h : IsComment back comment)
    (newlineEnds : Bool) :
    afterGap newlineEnds (comment ++ back) = afterGap newlineEnds back := by
  rw [Go.afterGap, Go.afterGap, h.gapLength, List.drop_append, List.drop_of_length_le (by omega),
    List.nil_append, Nat.add_sub_cancel_left]

/-- A place of a text, given by what stands before and behind it, and a comment to stand there. -/
structure Seam where
  front : List Char
  comment : List Char
  back : List Char

namespace Seam

/-- The text without the comment. -/
def plain (s : Seam) : List Char := s.front ++ s.back

/-- The text with the comment. -/
def commented (s : Seam) : List Char := s.front ++ (s.comment ++ s.back)

/-- What may be left of the front where a lexeme ends or a token begins. A sign that is the
beginning of another one is also taken for itself. -/
inductive Standing (s : Seam) : List Char → Prop
  | start : s.Standing (Grammar.behindMark s.front)
  | gap {x y : List Char} :
      s.Standing x → afterGap false (x ++ s.back) = y ++ s.back → s.Standing y
  | lexeme {x y : List Char} {newlineEnds : Bool} {measure : Measure} {n : Nat} :
      s.Standing x → afterGap newlineEnds (x ++ s.back) = y ++ s.back → measure ∈ lexemes →
        measure (y ++ s.back) = some n → s.Standing (y.drop n)

/-- The same text in front of the place, or the same text behind it. -/
def SameBehind (s : Seam) (cs cs' : List Char) : Prop :=
  (∃ y, y ≠ [] ∧ cs = y ++ s.back ∧ cs' = y ++ (s.comment ++ s.back)) ∨ (cs' = cs ∧ cs <:+ s.back)

/-- The place lies between two tokens. -/
structure Between (s : Seam) : Prop where
  isComment : IsComment s.back s.comment
  front_ne_nil : s.front ≠ []
  /-- A gap in front of the place ends at the same character with the comment. -/
  gap : ∀ x, s.Standing x → x ≠ [] → ∀ newlineEnds,
    s.SameBehind (afterGap newlineEnds (x ++ s.back))
      (afterGap newlineEnds (x ++ (s.comment ++ s.back)))
  /-- A lexeme in front of the place ends in front of it, and is the same with the comment. -/
  lexeme : ∀ x y newlineEnds, s.Standing x → y ≠ [] →
    afterGap newlineEnds (x ++ s.back) = y ++ s.back → ∀ measure ∈ lexemes,
      measure (y ++ (s.comment ++ s.back)) = measure (y ++ s.back) ∧
        ∀ n, measure (y ++ s.back) = some n → n ≤ y.length

/-- What is left of the two texts at the same place: the end of the front with all that follows, or
the same end of what follows. At the seam itself the two may only agree where a gap has been passed,
so not where a token has just ended (`settled`). -/
def Like (s : Seam) (settled : Bool) (cs cs' : List Char) : Prop :=
  (∃ x, s.Standing x ∧ cs = x ++ s.back ∧ cs' = x ++ (s.comment ++ s.back)) ∨
    (cs' = cs ∧ cs <:+ s.back ∧ (settled = true → cs ≠ s.back))

/-- What is left of the two texts behind a gap at the same place. -/
def Ahead (s : Seam) (cs cs' : List Char) : Prop :=
  (∃ y, y ≠ [] ∧ cs = y ++ s.back ∧ cs' = y ++ (s.comment ++ s.back) ∧ ∀ measure ∈ lexemes,
      measure cs' = measure cs ∧ ∀ n, measure cs = some n → n ≤ y.length ∧ s.Standing (y.drop n)) ∨
    (cs' = cs ∧ cs <:+ s.back)

/-- The end of the front is passed alike with the comment and without: a gap stops at the same one
of its characters, and a lexeme ends in front of the place. -/
def isClear (s : Seam) (x : List Char) : Bool :=
  ([true, false].all fun newlineEnds => (List.range x.length).any fun k =>
    afterGap newlineEnds (x ++ s.back) == x.drop k ++ s.back &&
      afterGap newlineEnds (x ++ (s.comment ++ s.back)) == x.drop k ++ (s.comment ++ s.back)) &&
  lexemes.all fun measure =>
    measure (x ++ (s.comment ++ s.back)) == measure (x ++ s.back) &&
      (measure (x ++ s.back)).all fun n => decide (n ≤ x.length)

variable {s : Seam} {settled : Bool} {cs cs' : List Char}

theorem Like.loosen (h : s.Like settled cs cs') : s.Like false cs cs' := by
  rcases h with h | ⟨heq, hsuffix, -⟩
  · exact .inl h
  · exact .inr ⟨heq, hsuffix, by simp⟩

theorem Like.of_true (h : s.Like true cs cs') : s.Like settled cs cs' := by
  rcases h with h | ⟨heq, hsuffix, hne⟩
  · exact .inl h
  · exact .inr ⟨heq, hsuffix, fun _ => hne rfl⟩

theorem behindMark_suffix (cs : List Char) : Grammar.behindMark cs <:+ cs := by
  obtain ⟨passed, h⟩ := Grammar.exists_append_behindMark cs
  exact ⟨passed, h.symm⟩

theorem suffix_of_append_right {a b c : List Char} (h : a ++ c <:+ b ++ c) : a <:+ b := by
  obtain ⟨passed, h⟩ := h
  rw [← List.append_assoc] at h
  exact ⟨passed, List.append_cancel_right h⟩

theorem suffix_append_right {a b : List Char} (h : a <:+ b) (c : List Char) :
    a ++ c <:+ b ++ c := by
  obtain ⟨passed, rfl⟩ := h
  exact ⟨passed, by rw [List.append_assoc]⟩

theorem afterGap_suffix (newlineEnds : Bool) (cs : List Char) : afterGap newlineEnds cs <:+ cs :=
  List.drop_suffix _ _

/-- A standing place is a place of the front. -/
theorem Standing.suffix {x : List Char} (h : s.Standing x) : x <:+ s.front := by
  induction h with
  | start => exact behindMark_suffix s.front
  | @gap x y _ heq ih =>
    have hgap := afterGap_suffix false (x ++ s.back)
    rw [heq] at hgap
    exact (suffix_of_append_right hgap).trans ih
  | @lexeme x y newlineEnds measure n _ heq _ _ ih =>
    have hgap := afterGap_suffix newlineEnds (x ++ s.back)
    rw [heq] at hgap
    exact (List.drop_suffix n y).trans ((suffix_of_append_right hgap).trans ih)

/-- A place lies between two tokens if every end of the front is clear. -/
theorem between_of_isClear (hcomment : IsComment s.back s.comment) (hfront : s.front ≠ [])
    (h : ∀ x ∈ s.front.tails, x ≠ [] → s.isClear x = true) : s.Between := by
  have hclear : ∀ {x : List Char}, x <:+ s.front → x ≠ [] → s.isClear x = true :=
    fun hsuffix hne => h _ ((List.mem_tails _ _).2 hsuffix) hne
  refine ⟨hcomment, hfront, fun x hx hne newlineEnds => ?_,
    fun x y newlineEnds hx hne heq measure hmem => ?_⟩
  · have hgaps := hclear hx.suffix hne
    rw [isClear, Bool.and_eq_true, List.all_eq_true] at hgaps
    have hgap := hgaps.1 newlineEnds (by cases newlineEnds <;> simp)
    rw [List.any_eq_true] at hgap
    obtain ⟨k, hk, hgap⟩ := hgap
    rw [Bool.and_eq_true, beq_iff_eq, beq_iff_eq] at hgap
    refine .inl ⟨x.drop k, ?_, hgap.1, hgap.2⟩
    have hlt := List.mem_range.1 hk
    intro hnil
    have hlength := congrArg List.length hnil
    rw [List.length_drop, List.length_nil] at hlength
    omega
  · have hsuffix := afterGap_suffix newlineEnds (x ++ s.back)
    rw [heq] at hsuffix
    have hlexemes := hclear ((suffix_of_append_right hsuffix).trans hx.suffix) hne
    rw [isClear, Bool.and_eq_true, List.all_eq_true] at hlexemes
    have hlexeme := List.all_eq_true.1 hlexemes.2 measure hmem
    rw [Bool.and_eq_true, beq_iff_eq] at hlexeme
    refine ⟨hlexeme.1, fun n hn => ?_⟩
    rw [hn, Option.all_some] at hlexeme
    exact of_decide_eq_true hlexeme.2

theorem Like.suffix_plain (h : s.Like settled cs cs') : cs <:+ s.plain := by
  rcases h with ⟨x, hx, rfl, -⟩ | ⟨-, hsuffix, -⟩
  · exact suffix_append_right hx.suffix _
  · exact hsuffix.trans (List.suffix_append ..)

theorem Like.suffix_commented (h : s.Like settled cs cs') : cs' <:+ s.commented := by
  rcases h with ⟨x, hx, -, rfl⟩ | ⟨rfl, hsuffix, -⟩
  · exact suffix_append_right hx.suffix _
  · exact hsuffix.trans ((List.suffix_append ..).trans (List.suffix_append ..))

/-- At the front of the text the two texts agree. -/
theorem Between.like_start (h : s.Between) :
    s.Like true (Grammar.behindMark s.plain) (Grammar.behindMark s.commented) := by
  have hmark : ∀ rest, Grammar.behindMark (s.front ++ rest) =
      Grammar.behindMark s.front ++ rest := by
    intro rest
    obtain ⟨c, front, hfront⟩ := List.exists_cons_of_ne_nil h.front_ne_nil
    have hlead : ∀ cs, Grammar.mark.isPrefixOf (c :: cs) = ('\uFEFF' == c) := by
      intro cs
      simp [Grammar.mark, List.isPrefixOf]
    rw [hfront, List.cons_append, Grammar.behindMark, Grammar.behindMark, hlead, hlead]
    split <;> rfl
  exact .inl ⟨_, .start, hmark _, hmark _⟩

/-- **Behind a gap the two texts agree as before it.** -/
theorem Like.ahead (hs : s.Between) (h : s.Like settled cs cs') (newlineEnds : Bool) :
    s.Ahead (afterGap newlineEnds cs) (afterGap newlineEnds cs') := by
  rcases h with ⟨x, hx, rfl, rfl⟩ | ⟨rfl, hsuffix, -⟩
  · by_cases hnil : x = []
    · subst hnil
      rw [List.nil_append, List.nil_append, hs.isComment.afterGap]
      exact .inr ⟨rfl, afterGap_suffix ..⟩
    · rcases hs.gap x hx hnil newlineEnds with ⟨y, hy, heq, heq'⟩ | hsame
      · rw [heq, heq']
        refine .inl ⟨y, hy, rfl, rfl, fun measure hmem => ?_⟩
        obtain ⟨hsame, hle⟩ := hs.lexeme x y newlineEnds hx hy heq measure hmem
        exact ⟨hsame, fun n hn => ⟨hle n hn, hx.lexeme heq hmem hn⟩⟩
      · exact .inr hsame
  · exact .inr ⟨rfl, (afterGap_suffix ..).trans hsuffix⟩

/-- **A gap may be passed on both sides.** -/
theorem Like.gap (hs : s.Between) (h : s.Like settled cs cs') :
    s.Like false (afterGap false cs) (afterGap false cs') := by
  have hahead := h.ahead hs false
  rcases h with ⟨x, hx, rfl, rfl⟩ | ⟨rfl, hsuffix, -⟩
  · rcases hahead with ⟨y, -, heq, heq', -⟩ | ⟨heq, hsuffix⟩
    · rw [heq, heq']
      exact .inl ⟨y, hx.gap heq, rfl, rfl⟩
    · exact .inr ⟨heq, hsuffix, by simp⟩
  · exact .inr ⟨rfl, (afterGap_suffix ..).trans hsuffix, by simp⟩

namespace Ahead

variable (h : s.Ahead cs cs')

include h

theorem head? : cs'.head? = cs.head? := by
  rcases h with ⟨y, hy, rfl, rfl, -⟩ | ⟨rfl, -⟩
  · obtain ⟨c, y, rfl⟩ := List.exists_cons_of_ne_nil hy
    rfl
  · rfl

theorem isEmpty : cs'.isEmpty = cs.isEmpty := by
  rcases h with ⟨y, hy, rfl, rfl, -⟩ | ⟨rfl, -⟩
  · obtain ⟨c, y, rfl⟩ := List.exists_cons_of_ne_nil hy
    rfl
  · rfl

theorem measure {measure : Measure} (hmem : measure ∈ lexemes) : measure cs' = measure cs := by
  rcases h with ⟨y, -, -, -, hmeasure⟩ | ⟨rfl, -⟩
  · exact (hmeasure measure hmem).1
  · rfl

theorem take {measure : Measure} (hmem : measure ∈ lexemes) {n : Nat}
    (hn : measure cs = some n) : cs'.take n = cs.take n := by
  rcases h with ⟨y, -, rfl, rfl, hmeasure⟩ | ⟨rfl, -⟩
  · have hle := ((hmeasure measure hmem).2 n hn).1
    rw [List.take_append_of_le_length hle, List.take_append_of_le_length hle]
  · rfl

/-- Behind a lexeme the two texts agree, and a token has just ended. -/
theorem drop {measure : Measure} (hmem : measure ∈ lexemes) {n : Nat}
    (hn : measure cs = some n) : s.Like true (cs.drop n) (cs'.drop n) := by
  obtain ⟨hpos, hle⟩ := takes_of_mem_lexemes hmem hn
  rcases h with ⟨y, -, rfl, rfl, hmeasure⟩ | ⟨rfl, hsuffix⟩
  · obtain ⟨hin, hstanding⟩ := (hmeasure measure hmem).2 n hn
    refine .inl ⟨y.drop n, hstanding, ?_, ?_⟩
    · rw [List.drop_append_of_le_length hin]
    · rw [List.drop_append_of_le_length hin]
  · refine .inr ⟨rfl, (List.drop_suffix ..).trans hsuffix, fun _ heq => ?_⟩
    have hlength := congrArg List.length heq
    have hshorter := hsuffix.length_le
    rw [List.length_drop] at hlength
    omega

theorem isPrefixOf {sign : List Char} (hsign : sign ∈ signs) :
    sign.isPrefixOf cs' = sign.isPrefixOf cs := by
  have hmeasure := h.measure (sign_mem_lexemes hsign)
  rw [Measure.exactly, Measure.exactly] at hmeasure
  cases hleft : sign.isPrefixOf cs' <;> cases hright : sign.isPrefixOf cs <;>
    simp_all

/-- Behind a sign the two texts agree. -/
theorem drop_sign {sign : List Char} (hsign : sign ∈ signs) (hfront : sign.isPrefixOf cs = true) :
    s.Like true (cs.drop sign.length) (cs'.drop sign.length) := by
  apply h.drop (sign_mem_lexemes hsign)
  rw [Measure.exactly, if_pos hfront]

theorem word? : Go.word? cs' = Go.word? cs := by
  rw [Go.word?, Go.word?, h.measure word_mem_lexemes]
  cases hn : wordLength cs with
  | none => rfl
  | some n => rw [Option.map_some, Option.map_some, h.take word_mem_lexemes hn]

theorem operator? {operators : List (List Char)} (hsigns : ∀ op ∈ operators, op ∈ signs) :
    Go.operator? operators cs' = Go.operator? operators cs := by
  rw [Go.operator?, Go.operator?]
  generalize (none : Option (List Char)) = best
  induction operators generalizing best with
  | nil => rfl
  | cons op rest ih =>
    rw [List.forall_mem_cons] at hsigns
    rw [List.foldl_cons, List.foldl_cons, h.isPrefixOf hsigns.1]
    exact ih hsigns.2 _

end Ahead

/-! ## Places counted from the end -/

/-- Where tokens end, the same places of one text are the same places of the other. -/
theorem Like.byteLength_eq_iff {ds ds' : List Char} (h : s.Like true cs cs')
    (h' : s.Like true ds ds') :
    Text.byteLength cs = Text.byteLength ds ↔ Text.byteLength cs' = Text.byteLength ds' := by
  -- In front of the place more is left than behind it, in both texts.
  have hbehind : ∀ {rest : List Char}, rest <:+ s.back → rest ≠ s.back →
      Text.byteLength rest < Text.byteLength s.back := by
    rintro rest ⟨passed, heq⟩ hne
    have hpassed : passed ≠ [] := by
      rintro rfl
      exact hne heq
    have hpos := Text.byteLength_pos hpassed
    rw [← heq, Text.byteLength_append]
    omega
  rcases h with ⟨x, -, rfl, rfl⟩ | ⟨rfl, hsuffix, hne⟩ <;>
    rcases h' with ⟨x', -, rfl, rfl⟩ | ⟨rfl, hsuffix', hne'⟩
  · simp only [Text.byteLength_append]
    omega
  · have hlt := hbehind hsuffix' (hne' rfl)
    simp only [Text.byteLength_append]
    omega
  · have hlt := hbehind hsuffix (hne rfl)
    simp only [Text.byteLength_append]
    omega
  · exact Iff.rfl

/-! ## Comments behind a star -/

/-- The comment stands behind a star, with at most blanks in between. -/
def BehindStar (s : Seam) : Prop :=
  ∃ before blanks, s.front = before ++ '*' :: blanks ∧ ∀ c ∈ blanks, isGap c = true

/-- Whether there is a comment is the same, but for a gap behind a star in which the comment is the
only one. -/
def SameFlag (s : Seam) (commented commented' : Bool) : Prop :=
  (commented = true → commented' = true) ∧ (commented' = true → commented = true ∨ s.BehindStar)

theorem SameFlag.refl (commented : Bool) : s.SameFlag commented commented := ⟨id, .inl⟩

/-- A gap without a slash consists of blanks. -/
theorem isGap_of_mem_gap {cs : List Char} (h : '/' ∉ cs.take (gapLength false .between cs)) :
    ∀ c ∈ cs.take (gapLength false .between cs), isGap c = true := by
  induction cs with
  | nil => simp
  | cons d cs ih =>
    by_cases hline : d = '/'
    · -- A slash in the gap is excluded, so the gap is empty.
      subst hline
      cases hlen : gapLength false .between ('/' :: cs) with
      | zero => simp
      | succ n =>
        rw [hlen, List.take_succ_cons] at h
        simp at h
    · rw [gapLength_between_of_ne false hline] at h ⊢
      split
      · rename_i hgap
        rw [if_pos hgap, List.take_succ_cons, List.mem_cons, not_or] at h
        intro c hc
        rw [List.take_succ_cons, List.mem_cons] at hc
        rcases hc with rfl | hc
        · simpa using hgap
        · exact ih h.2 c hc
      · simp

/-- The gap in front of a text. -/
def gapOf (cs : List Char) : List Char := cs.take (gapLength false .between cs)

theorem gapOf_append_afterGap (cs : List Char) : gapOf cs ++ afterGap false cs = cs :=
  List.take_append_drop _ cs

/-- A gap in front of the place is the same with the comment, or it has the comment in it. -/
theorem Standing.gap_cases (hs : s.Between) {x : List Char} (hx : s.Standing x) :
    gapOf (x ++ (s.comment ++ s.back)) = gapOf (x ++ s.back) ∨
      ∃ rest, gapOf (x ++ s.back) = x ++ rest ∧
        gapOf (x ++ (s.comment ++ s.back)) = x ++ (s.comment ++ rest) := by
  have hlike : s.Like true (x ++ s.back) (x ++ (s.comment ++ s.back)) := .inl ⟨x, hx, rfl, rfl⟩
  have hgap := gapOf_append_afterGap (x ++ s.back)
  have hgap' := gapOf_append_afterGap (x ++ (s.comment ++ s.back))
  rcases hlike.ahead hs false with ⟨y, -, heq, heq', -⟩ | ⟨heq, ⟨rest, hrest⟩⟩
  · rw [heq, ← List.append_assoc] at hgap
    rw [heq', ← List.append_assoc] at hgap'
    have hplain := List.append_cancel_right hgap
    have hcommented := List.append_cancel_right hgap'
    exact .inl (List.append_cancel_right (hcommented.trans hplain.symm))
  · rw [heq] at hgap'
    generalize afterGap false (x ++ s.back) = behind at hgap hgap' hrest
    rw [← hrest, ← List.append_assoc, List.append_cancel_right_eq, List.append_assoc] at hgap
    rw [← hrest, ← List.append_assoc, ← List.append_assoc, List.append_cancel_right_eq,
      List.append_assoc, List.append_assoc, List.append_assoc] at hgap'
    rw [← hrest]
    exact .inr ⟨rest, hgap, hgap'⟩

/-- **Behind a star the two texts tell the same of comments**, unless the comment stands there. -/
theorem Ahead.sameFlag (hs : s.Between) (h : s.Ahead cs cs') (hsuffix : cs <:+ s.plain)
    (hstar : ['*'].isPrefixOf cs = true) :
    s.SameFlag ((gapOf (cs.drop 1)).contains '/') ((gapOf (cs'.drop 1)).contains '/') := by
  rcases h with ⟨y, hy, rfl, rfl, hmeasure⟩ | ⟨rfl, -⟩
  · obtain ⟨c, y, rfl⟩ := List.exists_cons_of_ne_nil hy
    obtain rfl : '*' = c := by simpa [List.isPrefixOf] using hstar
    have hread : Measure.exactly ['*'] ('*' :: y ++ s.back) = some 1 := by
      rw [Measure.exactly, if_pos hstar]
      rfl
    have hstanding : s.Standing y :=
      ((hmeasure _ (sign_mem_lexemes (by decide))).2 1 hread).2
    simp only [List.cons_append, List.drop_succ_cons, List.drop_zero]
    rcases hstanding.gap_cases hs with heq | ⟨rest, heq, heq'⟩
    · rw [heq]
      exact .refl _
    · refine ⟨fun h => ?_, fun _ => ?_⟩
      · rw [heq, List.contains_iff_mem] at h
        rw [heq', List.contains_iff_mem]
        simp only [List.mem_append] at h ⊢
        tauto
      · by_cases hslash : '/' ∈ gapOf (y ++ s.back)
        · exact .inl (List.contains_iff_mem.2 hslash)
        · -- Only blanks stand between the star and the place.
          obtain ⟨before, hbefore⟩ := hsuffix
          rw [plain, ← List.append_assoc, List.append_cancel_right_eq] at hbefore
          refine .inr ⟨before, y, hbefore.symm, fun c hc => ?_⟩
          refine isGap_of_mem_gap hslash c ?_
          rw [← gapOf, heq]
          exact List.mem_append_left _ hc
  · exact .refl _

end Seam

end PinnedImports.Go
