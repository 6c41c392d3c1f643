import Mathlib.Data.List.Basic
import Mathlib.Data.List.TakeWhile
import PinnedImports.Proofs.Go.Blanks

/-!
# Tokens as texts

What a token parser reads is the gap in front of a token and the token. Words and string literals
are recognised by their own characters and at most the one behind them, so they are read again
wherever they stand.
-/

set_option autoImplicit false

namespace PinnedImports.Go

namespace Parser

theorem read_gap (newlineEnds : Bool) (text : List Char) :
    (gap newlineEnds).read text =
      some ((text.take (gapLength newlineEnds .between text)).contains '/',
        afterGap newlineEnds text) := by
  rw [gap, read_map, read_pass]
  rfl

@[simp] theorem read_ahead (newlineEnds : Bool) (text : List Char) :
    (ahead newlineEnds).read text = some (afterGap newlineEnds text, text) := rfl

theorem read_lexeme (measure : Measure) (text : List Char) :
    (lexeme measure).read text =
      (measure (afterGap false text)).map fun n =>
        ((afterGap false text).take n, (afterGap false text).drop n) := by
  rw [lexeme, read_bind, read_gap, Option.bind_some, read_pass]

theorem read_isAhead (newlineEnds : Bool) (symbol : String) (text : List Char) :
    (isAhead newlineEnds symbol).read text =
      some (symbol.toList.isPrefixOf (afterGap newlineEnds text), text) := by
  rw [isAhead, read_map, read_ahead]
  rfl

theorem read_symbol (text : String) (cs : List Char) :
    (symbol text).read cs =
      if text.toList.isPrefixOf (afterGap false cs) then
        some ((), (afterGap false cs).drop text.toList.length)
      else none := by
  rw [symbol, read_bind, read_lexeme, Measure.exactly]
  split <;> rfl

theorem read_keyword (word : String) (text : List Char) :
    (keyword word).read text =
      (wordLength (afterGap false text)).bind fun n =>
        if String.ofList ((afterGap false text).take n) == word then
          some ((), (afterGap false text).drop n)
        else none := by
  rw [keyword, read_bind, read_lexeme]
  cases wordLength (afterGap false text) with
  | none => rfl
  | some n => rw [Option.map_some, Option.bind_some, Option.bind_some, read_require]

end Parser

/-! ## Words -/

/-- A whole word. -/
def IsWord (word : List Char) : Prop :=
  ∃ c cs, word = c :: cs ∧ Text.isIdentifierStart c = true ∧
    ∀ d ∈ cs, Text.isIdentifierContinue d = true

/-- A text that does not go on with a word. -/
def EndsWord (text : List Char) : Prop :=
  ∀ c ∈ text.head?, Text.isIdentifierContinue c = false

theorem toNat_le_of_isGap {c : Char} (h : isGap c = true) : c.toNat ≤ 32 := by
  simp only [isGap, Bool.or_eq_true, Bool.and_eq_true, decide_eq_true_eq] at h
  rcases h with rfl | ⟨-, hle⟩
  · decide
  · have hval : c.val ≤ '\r'.val := hle
    have hnat : c.val.toNat ≤ ('\r').val.toNat := UInt32.le_iff_toNat_le.1 hval
    have hr : ('\r').val.toNat = 13 := rfl
    have hc : c.toNat = c.val.toNat := rfl
    omega

theorem toNat_of_isAlphanum {c : Char} (h : c.isAlphanum = true) : 48 ≤ c.toNat := by
  have h0 : ('0').val.toNat = 48 := rfl
  have hA : ('A').val.toNat = 65 := rfl
  have ha : ('a').val.toNat = 97 := rfl
  have hc : c.toNat = c.val.toNat := rfl
  delta Char.isAlphanum Char.isAlpha Char.isDigit Char.isUpper Char.isLower at h
  simp only [Bool.or_eq_true, Bool.and_eq_true, decide_eq_true_eq, UInt32.le_iff_toNat_le,
    ge_iff_le] at h
  omega

/-- The characters of a word are beyond the blanks and most punctuation. -/
theorem isIdentifierContinue_of_le {c : Char} (h : c.toNat ≤ 47) :
    Text.isIdentifierContinue c = false := by
  rw [Text.isIdentifierContinue, if_pos (by omega), Bool.or_eq_false_iff, beq_eq_false_iff_ne]
  constructor
  · by_contra halphanum
    rw [Bool.not_eq_false] at halphanum
    have hle := toNat_of_isAlphanum halphanum
    omega
  · rintro rfl
    exact absurd h (by decide)

theorem isIdentifierStart_of_le {c : Char} (h : c.toNat ≤ 47) :
    Text.isIdentifierStart c = false := by
  rw [Text.isIdentifierStart, if_pos (by omega), Bool.or_eq_false_iff, beq_eq_false_iff_ne]
  constructor
  · by_contra halpha
    rw [Bool.not_eq_false] at halpha
    have hle := toNat_of_isAlphanum (c := c) (by rw [Char.isAlphanum, halpha, Bool.true_or])
    omega
  · rintro rfl
    exact absurd h (by decide)

theorem isSolid_of_isIdentifierStart {c : Char} (h : Text.isIdentifierStart c = true) :
    isSolid c = true := by
  rw [isSolid_iff]
  constructor
  · by_contra hgap
    rw [Bool.not_eq_false] at hgap
    have hle := toNat_le_of_isGap hgap
    rw [isIdentifierStart_of_le (by omega)] at h
    simp at h
  · rintro rfl
    exact absurd h (by decide)

/-- The blank characters beyond ASCII. -/
def blanksBeyondAscii : List Nat :=
  [0x85, 0xA0, 0x1680, 0x2028, 0x2029, 0x202F, 0x205F, 0x3000] ++ List.range' 0x2000 11

theorem toNat_of_isBlank {c : Char} (h : Text.isBlank c = true) :
    c.toNat ≤ 32 ∨ c.toNat ∈ blanksBeyondAscii := by
  simp only [Text.isBlank, Bool.or_eq_true, Bool.and_eq_true, beq_iff_eq, decide_eq_true_eq] at h
  simp only [blanksBeyondAscii, List.mem_append, List.mem_cons, List.mem_range', List.not_mem_nil,
    or_false]
  by_cases hrange : 0x2000 ≤ c.toNat ∧ c.toNat ≤ 0x200A
  · exact .inr (.inr ⟨c.toNat - 0x2000, by omega, by omega⟩)
  · omega

/-- No word starts with a blank, not even with one beyond ASCII. -/
theorem isBlank_of_isIdentifierStart {c : Char} (h : Text.isIdentifierStart c = true) :
    Text.isBlank c = false := by
  have htable : ∀ n ∈ blanksBeyondAscii,
      128 ≤ n ∧ Text.identifierStartBeyondAscii.holds n = false := by decide +kernel
  by_contra hblank
  rw [Bool.not_eq_false] at hblank
  rcases toNat_of_isBlank hblank with hle | hmem
  · rw [isIdentifierStart_of_le (by omega)] at h
    simp at h
  · obtain ⟨hge, hholds⟩ := htable _ hmem
    rw [Text.isIdentifierStart, if_neg (by omega), hholds] at h
    simp at h

theorem wordLength_append {word : List Char} (h : IsWord word) {rest : List Char}
    (hrest : EndsWord rest) : wordLength (word ++ rest) = some word.length := by
  obtain ⟨c, cs, rfl, hc, hcs⟩ := h
  rw [List.cons_append, wordLength, if_pos hc, List.takeWhile_append_of_pos hcs]
  cases rest with
  | nil => simp
  | cons d rest =>
    rw [List.takeWhile_cons, hrest d (by simp)]
    simp

theorem isWord_of_wordLength {text : List Char} {n : Nat} (h : wordLength text = some n) :
    ∃ word rest, text = word ++ rest ∧ word.length = n ∧ IsWord word ∧ EndsWord rest := by
  cases text with
  | nil => simp [wordLength] at h
  | cons c cs =>
    rw [wordLength] at h
    split at h
    · rename_i hc
      refine ⟨c :: cs.takeWhile Text.isIdentifierContinue,
        cs.dropWhile Text.isIdentifierContinue, ?_, Option.some.inj h, ?_, ?_⟩
      · rw [List.cons_append, List.takeWhile_append_dropWhile]
      · exact ⟨c, _, rfl, hc, fun d hd => List.mem_takeWhile_imp hd⟩
      · intro d hd
        have hnot := List.head?_dropWhile_not Text.isIdentifierContinue cs
        rw [Option.mem_def] at hd
        rw [hd] at hnot
        exact hnot
    · simp at h

/-- Blanks in front of a token that does not go on with a word end a word. -/
theorem EndsWord.blanks {blanks rest : List Char} (h : Blanks blanks) (hrest : EndsWord rest) :
    EndsWord (blanks ++ rest) := by
  cases h with
  | nil => exact hrest
  | gap hc _ =>
    intro d hd
    have hle := toNat_le_of_isGap hc
    rw [List.cons_append, List.head?_cons, Option.mem_some_iff] at hd
    exact isIdentifierContinue_of_le (by rw [← hd]; omega)
  | line _ _ =>
    intro d hd
    rw [List.cons_append, List.head?_cons, Option.mem_some_iff] at hd
    rw [← hd]
    decide
  | block _ _ =>
    intro d hd
    rw [List.cons_append, List.head?_cons, Option.mem_some_iff] at hd
    rw [← hd]
    decide

/-! ## String literals -/

/-- A whole string literal: read as itself, whatever follows. -/
def IsLiteral (literal : List Char) : Prop :=
  ∀ rest, stringLength (literal ++ rest) = some literal.length

theorem quotedRest_ends {cs : List Char} {n : Nat} (h : quotedRest cs = some n) :
    ∃ body rest, cs = body ++ '"' :: rest ∧ n = body.length + 1 := by
  induction cs using quotedRest.induct generalizing n with
  | case1 tail => exact ⟨[], tail, rfl, by rw [quotedRest] at h; exact (Option.some.inj h).symm⟩
  | case2 c tail due hdue =>
    rename_i ih
    rw [quotedRest, if_pos hdue, Option.map_eq_some_iff] at h
    obtain ⟨m, hm, rfl⟩ := h
    obtain ⟨body, rest, rfl, rfl⟩ := ih hm
    exact ⟨'\\' :: c :: body, rest, rfl, rfl⟩
  | case3 c tail due =>
    rename_i hdue
    rw [quotedRest, if_neg hdue] at h
    simp at h
  | case4 c tail hquote hslash hbad =>
    rw [quotedRest, if_pos hbad] at h
    · simp at h
    · exact hquote
    · exact hslash
  | case5 c tail hquote hslash hbad ih =>
    rw [quotedRest, if_neg hbad, Option.map_eq_some_iff] at h
    · obtain ⟨m, hm, rfl⟩ := h
      obtain ⟨body, rest, rfl, rfl⟩ := ih hm
      exact ⟨c :: body, rest, rfl, rfl⟩
    · exact hquote
    · exact hslash
  | case6 => simp [quotedRest] at h

/-- The hexadecimal digits that an escape takes with it lie before the closing quote. -/
theorem hexDigits_take {cs : List Char} {n due : Nat} (h : quotedRest cs = some n)
    (hdue : ((cs.take due).all isHexDigit && due ≤ cs.length) = true) : due < n := by
  obtain ⟨body, rest, rfl, rfl⟩ := quotedRest_ends h
  rw [Bool.and_eq_true, List.all_eq_true, decide_eq_true_eq] at hdue
  by_contra hlt
  have hmem : '"' ∈ (body ++ '"' :: rest).take due := by
    rw [List.take_append, List.mem_append, List.take_cons (by omega)]
    exact .inr (List.mem_cons_self ..)
  exact absurd (hdue.1 _ hmem) (by decide)

theorem quotedRest_take {cs : List Char} {n : Nat} (h : quotedRest cs = some n)
    (rest : List Char) : quotedRest (cs.take n ++ rest) = some n := by
  induction cs using quotedRest.induct generalizing n with
  | case1 tail =>
    rw [quotedRest, Option.some.injEq] at h
    rw [← h, List.take_succ_cons, List.cons_append, quotedRest]
  | case2 c tail due hdue =>
    rename_i ih
    rw [quotedRest, if_pos hdue, Option.map_eq_some_iff] at h
    obtain ⟨m, hm, rfl⟩ := h
    have hlt := hexDigits_take hm hdue
    have hle : m ≤ tail.length := by
      obtain ⟨body, last, rfl, rfl⟩ := quotedRest_ends hm
      simp
    rw [List.take_succ_cons, List.take_succ_cons, List.cons_append, List.cons_append, quotedRest,
      if_pos, ih hm, Option.map_some]
    rw [Bool.and_eq_true, decide_eq_true_eq] at hdue ⊢
    rw [List.take_append_of_le_length (by rw [List.length_take]; omega), List.take_take,
      Nat.min_eq_left (by omega)]
    exact ⟨hdue.1, by rw [List.length_append, List.length_take]; omega⟩
  | case3 c tail due =>
    rename_i hdue
    rw [quotedRest, if_neg hdue] at h
    simp at h
  | case4 c tail hquote hslash hbad =>
    rw [quotedRest, if_pos hbad] at h
    · simp at h
    · exact hquote
    · exact hslash
  | case5 c tail hquote hslash hbad ih =>
    rw [quotedRest, if_neg hbad, Option.map_eq_some_iff] at h
    · obtain ⟨m, hm, rfl⟩ := h
      rw [Bool.or_eq_true, not_or] at hbad
      rw [List.take_succ_cons, List.cons_append,
        quotedRest_plain hquote (fun hc => hbad.2 (beq_iff_eq.2 hc))
          (fun hc => hbad.1 (beq_iff_eq.2 hc)), ih hm, Option.map_some]
    · exact hquote
    · exact hslash
  | case6 => simp [quotedRest] at h

theorem rawRest_take {cs : List Char} {n : Nat} (h : rawRest cs = some n) (rest : List Char) :
    rawRest (cs.take n ++ rest) = some n := by
  induction cs generalizing n with
  | nil => simp [rawRest] at h
  | cons c cs ih =>
    rw [rawRest] at h
    split at h
    · rename_i hc
      rw [Option.some.injEq] at h
      rw [← h, List.take_succ_cons, List.cons_append, rawRest, if_pos hc]
    · rename_i hc
      rw [Option.map_eq_some_iff] at h
      obtain ⟨m, hm, rfl⟩ := h
      rw [List.take_succ_cons, List.cons_append, rawRest, if_neg hc, ih hm, Option.map_some]

theorem rawRest_le {cs : List Char} {n : Nat} (h : rawRest cs = some n) : n ≤ cs.length := by
  induction cs generalizing n with
  | nil => simp [rawRest] at h
  | cons c cs ih =>
    rw [rawRest] at h
    split at h
    · rw [Option.some.injEq] at h
      rw [List.length_cons]
      omega
    · rw [Option.map_eq_some_iff] at h
      obtain ⟨m, hm, rfl⟩ := h
      have hle := ih hm
      rw [List.length_cons]
      omega

theorem isLiteral_of_stringLength {text : List Char} {n : Nat} (h : stringLength text = some n) :
    n ≤ text.length ∧ IsLiteral (text.take n) := by
  unfold stringLength at h
  split at h
  · rename_i rest
    rw [Option.map_eq_some_iff] at h
    obtain ⟨m, hm, rfl⟩ := h
    have hle : m ≤ rest.length := by
      obtain ⟨body, last, rfl, rfl⟩ := quotedRest_ends hm
      simp
    refine ⟨by rw [List.length_cons]; omega, fun last => ?_⟩
    rw [List.take_succ_cons, List.cons_append, stringLength, quotedRest_take hm, Option.map_some,
      List.length_cons, List.length_take, Nat.min_eq_left hle]
  · rename_i rest
    rw [Option.map_eq_some_iff] at h
    obtain ⟨m, hm, rfl⟩ := h
    have hle := rawRest_le hm
    refine ⟨by rw [List.length_cons]; omega, fun last => ?_⟩
    rw [List.take_succ_cons, List.cons_append, stringLength, rawRest_take hm, Option.map_some,
      List.length_cons, List.length_take, Nat.min_eq_left hle]
  · simp at h

/-- A literal starts with a quote. -/
theorem IsLiteral.head {literal : List Char} (h : IsLiteral literal) :
    ∃ c cs, literal = c :: cs ∧ (c = '"' ∨ c = '`') := by
  have hread := h []
  rw [List.append_nil] at hread
  unfold stringLength at hread
  split at hread
  · exact ⟨_, _, rfl, .inl rfl⟩
  · exact ⟨_, _, rfl, .inr rfl⟩
  · simp at hread

theorem rawRest_ends {cs : List Char} {n : Nat} (h : rawRest cs = some n) :
    ∃ body rest, cs = body ++ '`' :: rest ∧ n = body.length + 1 := by
  induction cs generalizing n with
  | nil => simp [rawRest] at h
  | cons c cs ih =>
    rw [rawRest] at h
    split at h
    · rename_i hc
      rw [Option.some.injEq] at h
      exact ⟨[], cs, by rw [eq_of_beq hc]; rfl, h.symm⟩
    · rw [Option.map_eq_some_iff] at h
      obtain ⟨m, hm, rfl⟩ := h
      obtain ⟨body, rest, rfl, rfl⟩ := ih hm
      exact ⟨c :: body, rest, rfl, rfl⟩

/-- A literal ends with a quote. -/
theorem IsLiteral.last {literal : List Char} (h : IsLiteral literal) :
    ∃ init c, literal = init ++ [c] ∧ (c = '"' ∨ c = '`') := by
  have hread := h []
  rw [List.append_nil] at hread
  unfold stringLength at hread
  split at hread
  · rename_i cs
    rw [Option.map_eq_some_iff] at hread
    obtain ⟨m, hm, hlen⟩ := hread
    obtain ⟨body, rest, rfl, rfl⟩ := quotedRest_ends hm
    have hrest : rest = [] := by
      simp only [List.length_cons, List.length_append] at hlen
      exact List.eq_nil_of_length_eq_zero (by omega)
    exact ⟨'"' :: body, '"', by rw [hrest]; rfl, .inl rfl⟩
  · rename_i cs
    rw [Option.map_eq_some_iff] at hread
    obtain ⟨m, hm, hlen⟩ := hread
    obtain ⟨body, rest, rfl, rfl⟩ := rawRest_ends hm
    have hrest : rest = [] := by
      simp only [List.length_cons, List.length_append] at hlen
      exact List.eq_nil_of_length_eq_zero (by omega)
    exact ⟨'`' :: body, '`', by rw [hrest]; rfl, .inr rfl⟩
  · simp at hread

theorem isSolid_of_isQuote {c : Char} (h : c = '"' ∨ c = '`') : isSolid c = true := by
  rcases h with rfl | rfl <;> decide

theorem not_isIdentifierContinue_of_isQuote {c : Char} (h : c = '"' ∨ c = '`') :
    Text.isIdentifierContinue c = false := by
  rcases h with rfl | rfl <;> decide

end PinnedImports.Go
