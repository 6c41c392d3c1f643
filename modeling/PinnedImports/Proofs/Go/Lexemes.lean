import PinnedImports.Proofs.Go.Tokens

/-!
# The lexemes of the grammar

`lexemes` lists what the rules of the grammar pass behind a gap: words, literals, the terminators
and the signs. Each of them takes at least one character and no more than there are
(`takes_of_mem_lexemes`), so a parser that begins with one advances.
-/

set_option autoImplicit false

namespace PinnedImports.Go

/-- The signs that the grammar asks for. -/
def signs : List (List Char) :=
  binaryOperators ++ assignmentOperators ++
    ["++", "--", "<-", ":=", ":", "...", ".", ",", ";", "~", "!", "(", ")", "[", "]",
      Parser.openBrace, Parser.closeBrace].map String.toList

/-- What the rules of the grammar pass behind a gap. -/
def lexemes : List Measure :=
  [wordLength, stringLength, .longest [numberLength, runeLength, stringLength],
    .longest [.exactly ['.'], wordLength], .one isTerminator] ++ signs.map .exactly

namespace Measure

/-- The lexeme is not empty and lies within the text. -/
def Takes (measure : Measure) : Prop :=
  ∀ ⦃cs : List Char⦄ ⦃n : Nat⦄, measure cs = some n → 0 < n ∧ n ≤ cs.length

/-- The lexeme lies within the text. -/
def Fits (measure : Measure) : Prop :=
  ∀ ⦃cs : List Char⦄ ⦃n : Nat⦄, measure cs = some n → n ≤ cs.length

theorem Takes.fits {measure : Measure} (h : measure.Takes) : measure.Fits :=
  fun _ _ hread => (h hread).2

theorem fits_exactly (text : List Char) : (exactly text).Fits := by
  intro cs n h
  rw [exactly] at h
  split at h
  · rename_i hfront
    rw [← Option.some.inj h]
    exact (List.isPrefixOf_iff_prefix.1 hfront).length_le
  · simp at h

theorem takes_exactly {text : List Char} (htext : text ≠ []) : (exactly text).Takes := by
  intro cs n h
  refine ⟨?_, fits_exactly text h⟩
  rw [exactly] at h
  split at h
  · rw [← Option.some.inj h]
    exact List.length_pos_of_ne_nil htext
  · simp at h

theorem takes_one (p : Char → Bool) : (one p).Takes := by
  intro cs n h
  cases cs with
  | nil => simp [one] at h
  | cons c cs =>
    rw [one] at h
    split at h
    · rw [← Option.some.inj h, List.length_cons]
      omega
    · simp at h

theorem Takes.andThen {a b : Measure} (ha : a.Takes) (hb : b.Fits) : (a.andThen b).Takes := by
  intro cs n h
  simp only [Measure.andThen, Option.bind_eq_bind, Option.bind_eq_some_iff, Option.pure_def,
    Option.some.injEq] at h
  obtain ⟨i, hi, j, hj, rfl⟩ := h
  have hleft := ha hi
  have hright := hb hj
  rw [List.length_drop] at hright
  omega

theorem Fits.andThen {a b : Measure} (ha : a.Fits) (hb : b.Fits) : (a.andThen b).Fits := by
  intro cs n h
  simp only [Measure.andThen, Option.bind_eq_bind, Option.bind_eq_some_iff, Option.pure_def,
    Option.some.injEq] at h
  obtain ⟨i, hi, j, hj, rfl⟩ := h
  have hleft := ha hi
  have hright := hb hj
  rw [List.length_drop] at hright
  omega

/-- Behind a lexeme that may be missing one has to stand. -/
theorem Takes.andThen_right {a b : Measure} (ha : a.Fits) (hb : b.Takes) :
    (a.andThen b).Takes := by
  intro cs n h
  simp only [Measure.andThen, Option.bind_eq_bind, Option.bind_eq_some_iff, Option.pure_def,
    Option.some.injEq] at h
  obtain ⟨i, hi, j, hj, rfl⟩ := h
  have hleft := ha hi
  have hright := hb hj
  rw [List.length_drop] at hright
  omega

theorem Fits.orNothing {a : Measure} (ha : a.Fits) : a.orNothing.Fits := by
  intro cs n h
  rw [Measure.orNothing, Option.some.injEq] at h
  cases hread : a cs with
  | none =>
    rw [hread, Option.getD_none] at h
    omega
  | some i =>
    rw [hread, Option.getD_some] at h
    rw [← h]
    exact ha hread

theorem takes_longest {measures : List Measure} (h : ∀ measure ∈ measures, measure.Takes) :
    (longest measures).Takes := by
  intro cs n hmax
  rw [longest, List.max?_eq_some_iff] at hmax
  obtain ⟨measure, hmem, hread⟩ := List.mem_filterMap.1 hmax.1
  exact h measure hmem hread

theorem fits_longest {measures : List Measure} (h : ∀ measure ∈ measures, measure.Fits) :
    (longest measures).Fits := by
  intro cs n hmax
  rw [longest, List.max?_eq_some_iff] at hmax
  obtain ⟨measure, hmem, hread⟩ := List.mem_filterMap.1 hmax.1
  exact h measure hmem hread

end Measure

open PinnedImports.Go.Measure

theorem takes_wordLength : wordLength.Takes := by
  intro cs n h
  obtain ⟨word, rest, rfl, rfl, ⟨c, cs, rfl, -⟩, -⟩ := isWord_of_wordLength h
  simp

theorem takes_stringLength : stringLength.Takes := by
  intro cs n h
  refine ⟨?_, (isLiteral_of_stringLength h).1⟩
  unfold stringLength at h
  split at h
  · rw [Option.map_eq_some_iff] at h
    obtain ⟨m, -, rfl⟩ := h
    omega
  · rw [Option.map_eq_some_iff] at h
    obtain ⟨m, -, rfl⟩ := h
    omega
  · simp at h

theorem moreDigits_le (p : Char → Bool) (cs : List Char) : moreDigits p cs ≤ cs.length := by
  fun_induction moreDigits p cs with
  | case1 d rest _ ih => simp only [List.length_cons]; omega
  | case2 => omega
  | case3 c rest _ _ ih => rw [List.length_cons]; omega
  | case4 => omega
  | case5 => omega

theorem takes_digits (p : Char → Bool) : (digits p).Takes := by
  intro cs n h
  cases cs with
  | nil => simp [digits] at h
  | cons c cs =>
    have hle := moreDigits_le p cs
    rw [digits] at h
    split at h
    · rw [← Option.some.inj h, List.length_cons]
      omega
    · simp at h

theorem takes_letter (lower : Char) : (letter lower).Takes := takes_one _

theorem fits_times (p : Char → Bool) (n : Nat) : (times p n).Fits := by
  induction n with
  | zero =>
    intro cs n h
    rw [times, Option.some.injEq] at h
    omega
  | succ n ih => exact (takes_one p).fits.andThen ih

theorem takes_based {base : Measure} (hbase : base.Fits) (p : Char → Bool) :
    (based base p).Takes :=
  (takes_exactly (by simp)).andThen
    (hbase.andThen ((fits_exactly _).orNothing.andThen (takes_digits p).fits))

theorem takes_integerLength : integerLength.Takes := by
  refine takes_longest fun measure hmem => ?_
  simp only [List.mem_cons, List.not_mem_nil, or_false] at hmem
  rcases hmem with rfl | rfl | rfl | rfl | rfl
  · exact takes_based (takes_letter _).fits _
  · exact takes_based (takes_letter _).fits _
  · exact takes_based (takes_letter _).fits.orNothing _
  · exact takes_exactly (by simp)
  · exact (takes_one _).andThen
      ((fits_exactly _).orNothing.andThen (takes_digits _).fits).orNothing

theorem takes_exponent (sign : Char) : (exponent sign).Takes :=
  (takes_letter sign).andThen ((takes_one _).fits.orNothing.andThen (takes_digits _).fits)

theorem takes_floatLength : floatLength.Takes := by
  have hmantissa : (longest
      [(exactly ['_']).orNothing.andThen ((digits isHexDigit).andThen
        ((exactly ['.']).andThen (digits isHexDigit).orNothing)),
      (exactly ['_']).orNothing.andThen (digits isHexDigit),
      (exactly ['.']).andThen (digits isHexDigit)]).Takes := by
    refine takes_longest fun measure hmem => ?_
    simp only [List.mem_cons, List.not_mem_nil, or_false] at hmem
    rcases hmem with rfl | rfl | rfl
    · exact .andThen_right (fits_exactly _).orNothing ((takes_digits _).andThen
        ((fits_exactly _).andThen (takes_digits _).fits.orNothing))
    · exact .andThen_right (fits_exactly _).orNothing (takes_digits _)
    · exact (takes_exactly (by simp)).andThen (takes_digits _).fits
  refine takes_longest fun measure hmem => ?_
  simp only [List.mem_cons, List.not_mem_nil, or_false] at hmem
  rcases hmem with rfl | rfl | rfl | rfl
  · exact (takes_digits _).andThen ((fits_exactly _).andThen
      ((takes_digits _).fits.orNothing.andThen (takes_exponent _).fits.orNothing))
  · exact (takes_digits _).andThen (takes_exponent _).fits
  · exact (takes_exactly (by simp)).andThen
      ((takes_digits _).fits.andThen (takes_exponent _).fits.orNothing)
  · exact (takes_exactly (by simp)).andThen
      ((takes_letter _).fits.andThen (hmantissa.fits.andThen (takes_exponent _).fits))

theorem takes_numberLength : numberLength.Takes := by
  have hreal : (longest [digits Char.isDigit, integerLength, floatLength]).Takes := by
    refine takes_longest fun measure hmem => ?_
    simp only [List.mem_cons, List.not_mem_nil, or_false] at hmem
    rcases hmem with rfl | rfl | rfl
    · exact takes_digits _
    · exact takes_integerLength
    · exact takes_floatLength
  refine takes_longest fun measure hmem => ?_
  simp only [List.mem_cons, List.not_mem_nil, or_false] at hmem
  rcases hmem with rfl | rfl | rfl
  · exact takes_integerLength
  · exact takes_floatLength
  · exact hreal.andThen (fits_exactly _)

theorem takes_runeLength : runeLength.Takes := by
  refine (takes_exactly (by simp)).andThen (Fits.andThen ?_ (fits_exactly _))
  refine fits_longest fun measure hmem => ?_
  simp only [List.mem_cons, List.not_mem_nil, or_false] at hmem
  rcases hmem with rfl | rfl
  · exact (takes_one _).fits
  · refine (fits_exactly _).andThen (fits_longest fun measure hmem => ?_)
    simp only [List.mem_cons, List.not_mem_nil, or_false] at hmem
    rcases hmem with rfl | rfl | rfl | rfl | rfl
    · exact (fits_exactly _).andThen (fits_times _ _)
    · exact fits_times _ _
    · exact (fits_exactly _).andThen (fits_times _ _)
    · exact (fits_exactly _).andThen (fits_times _ _)
    · exact (takes_one _).fits

theorem takes_of_mem_lexemes {measure : Measure} (h : measure ∈ lexemes) : measure.Takes := by
  simp only [lexemes, List.cons_append, List.nil_append, List.mem_cons, List.mem_map] at h
  rcases h with rfl | rfl | rfl | rfl | rfl | ⟨sign, hsign, rfl⟩
  · exact takes_wordLength
  · exact takes_stringLength
  · refine takes_longest fun measure hmem => ?_
    simp only [List.mem_cons, List.not_mem_nil, or_false] at hmem
    rcases hmem with rfl | rfl | rfl
    · exact takes_numberLength
    · exact takes_runeLength
    · exact takes_stringLength
  · refine takes_longest fun measure hmem => ?_
    simp only [List.mem_cons, List.not_mem_nil, or_false] at hmem
    rcases hmem with rfl | rfl
    · exact takes_exactly (by simp)
    · exact takes_wordLength
  · exact takes_one _
  · refine takes_exactly ?_
    have hnonempty : ∀ sign ∈ signs, sign ≠ [] := by decide
    exact hnonempty sign hsign

theorem word_mem_lexemes : wordLength ∈ lexemes := by simp [lexemes]

theorem string_mem_lexemes : stringLength ∈ lexemes := by simp [lexemes]

theorem sign_mem_lexemes {sign : List Char} (h : sign ∈ signs) :
    Measure.exactly sign ∈ lexemes := by
  rw [lexemes, List.mem_append]
  exact .inr (List.mem_map_of_mem h)

/-- An operator that is found is among those that are looked for. -/
theorem operator?_mem {operators : List (List Char)} {cs operator : List Char}
    (h : operator? operators cs = some operator) :
    operator ∈ operators ∧ operator <+: cs := by
  have hfold : ∀ (rest : List (List Char)) (best : Option (List Char)),
      (∀ b ∈ best, b ∈ operators ∧ b <+: cs) → (∀ op ∈ rest, op ∈ operators) →
      ∀ b ∈ rest.foldl (fun best op =>
        if op.isPrefixOf cs && (best.all fun b => b.length < op.length) then some op
        else best) best,
        b ∈ operators ∧ b <+: cs := by
    intro rest
    induction rest with
    | nil => exact fun best hbest _ => hbest
    | cons op rest ih =>
      intro best hbest hrest
      rw [List.forall_mem_cons] at hrest
      refine ih _ ?_ hrest.2
      beta_reduce
      split
      · rename_i hcond
        rw [Bool.and_eq_true, List.isPrefixOf_iff_prefix] at hcond
        intro b hb
        rw [Option.mem_some_iff] at hb
        rw [← hb]
        exact ⟨hrest.1, hcond.1⟩
      · exact hbest
  exact hfold operators none (by simp) (fun _ => id) operator h

theorem operators_mem_signs (follow : Follow) :
    ∀ operator ∈ follow.operators, operator ∈ signs := by
  cases follow <;> decide

theorem mem_signs_of_binaryOperator? {follow : Follow} {cs operator : List Char}
    (h : follow.binaryOperator? cs = some operator) : operator ∈ signs := by
  rw [Follow.binaryOperator?, Option.filter_eq_some_iff] at h
  exact operators_mem_signs follow operator (operator?_mem h.1).1

end PinnedImports.Go
