import PinnedImports.Proofs.Json.Grammar

/-!
# Reading the texts of a value

A reader reads a value if it takes every text of it off the front, up to where the text stops
(`Reads`). Strings, truth values and whole numbers of 64 bits are read as what they are. A list is read
if its elements are (`list_reads`), an object if its members are, one after the other
(`membersWithin_of_readsAll`).
-/

set_option autoImplicit false

namespace PinnedImports.Json

/-- The reader takes every text of the value off the front, with the blanks before it. -/
def Reads {α : Type} (read : Reader α) (v : Datum) (a : α) : Prop :=
  ∀ before text rest, Blank before → Spells v text → Stops rest →
    read (before ++ (text ++ rest)) = .ok (a, rest)

/-! ## Blanks -/

theorem skipBlanks_append {blanks : List Char} (h : Blank blanks) (cs : List Char) :
    skipBlanks (blanks ++ cs) = skipBlanks cs :=
  List.dropWhile_append_of_pos h

theorem skipBlanks_of_not {c : Char} (h : isBlank c = false) (cs : List Char) :
    skipBlanks (c :: cs) = c :: cs := by
  rw [skipBlanks, List.dropWhile_cons_of_neg (by simp [h])]

theorem expect_append {blanks : List Char} (h : Blank blanks) {c : Char} (hc : isBlank c = false)
    (absent : Fault) (cs : List Char) : expect c absent (blanks ++ c :: cs) = .ok ((), cs) := by
  rw [expect, skipBlanks_append h, skipBlanks_of_not hc]
  simp only [if_true]

/-- A value that is read is read from a whole text. -/
theorem ofText_of_reads {α : Type} {read : Reader α} {v : Datum} {a : α} (h : Reads read v a)
    {text : String} (htext : IsText v text) : ofText read text = .ok a := by
  obtain ⟨before, inner, behind, hbefore, hinner, hbehind, heq⟩ := htext
  have hstops : Stops behind := by
    have hend : Stops [] := trivial
    simpa using hbehind.stops_append hend
  have hblanks : skipBlanks behind = [] := by
    rw [← List.append_nil behind, skipBlanks_append hbehind]
    rfl
  rw [ofText, heq, h before inner behind hbefore hinner hstops]
  simp only [bind, Except.bind, hblanks]
  rfl

/-! ## Strings -/

theorem hexValue?_of_isHexDigit {c : Char} {n : Nat} (h : IsHexDigit c n) :
    hexValue? c = some n := by
  have hall : ∀ n < 16, hexValue? (hexDigit n) = some n ∧
      hexValue? (hexDigit n).toUpper = some n := by decide
  obtain ⟨hn, rfl | rfl⟩ := h
  · exact (hall n hn).1
  · exact (hall n hn).2

theorem hexQuad_of_spellsUnit {n : Nat} {digits : List Char} (h : SpellsUnit n digits)
    (rest : List Char) : hexQuad (digits ++ rest) = .ok (n, rest) := by
  cases h with
  | mk ha hb hc hd =>
    simp only [List.cons_append, List.nil_append, hexQuad, hexValue?_of_isHexDigit ha,
      hexValue?_of_isHexDigit hb, hexValue?_of_isHexDigit hc, hexValue?_of_isHexDigit hd]

theorem simpleEscape?_of_mem {d c : Char} (h : (d, c) ∈ escapes) :
    simpleEscape? d = some c ∧ d ≠ 'u' := by
  have hall : ∀ entry ∈ escapes, simpleEscape? entry.1 = some entry.2 ∧ entry.1 ≠ 'u' := by decide
  exact hall (d, c) h

/-- The code of a character is that of no surrogate. -/
theorem toNat_not_surrogate (c : Char) : ¬ (0xD800 ≤ c.toNat ∧ c.toNat ≤ 0xDFFF) := by
  have hvalid : c.toNat < 0xD800 ∨ 0xDFFF < c.toNat ∧ c.toNat < 0x110000 := c.valid
  omega

theorem unicodeEscape_unit {c : Char} {digits : List Char} (h : SpellsUnit c.toNat digits)
    (rest : List Char) : unicodeEscape (digits ++ rest) = .ok (c, rest) := by
  have hnot := toNat_not_surrogate c
  rw [unicodeEscape, hexQuad_of_spellsUnit h]
  simp only [bind, Except.bind]
  rw [if_neg (by omega), if_pos (by omega), Char.ofNat_toNat]
  rfl

theorem unicodeEscape_surrogates {c : Char} {high low : Nat} {first second : List Char}
    (hfirst : SpellsUnit (0xD800 + high) first) (hsecond : SpellsUnit (0xDC00 + low) second)
    (hhigh : high < 0x400) (hlow : low < 0x400) (hc : c.toNat = 0x10000 + high * 0x400 + low)
    (rest : List Char) :
    unicodeEscape (first ++ '\\' :: 'u' :: (second ++ rest)) = .ok (c, rest) := by
  rw [unicodeEscape, hexQuad_of_spellsUnit hfirst]
  simp only [bind, Except.bind, hexQuad_of_spellsUnit hsecond]
  rw [if_neg (by omega), if_neg (by omega), if_neg (by omega), Nat.add_sub_cancel_left,
    Nat.add_sub_cancel_left, ← hc, Char.ofNat_toNat]
  rfl

section

variable {escape : Reader Char} {n : Nat} {cs read rest : List Char}

theorem stringWithin_simple {d e : Char} (hd : d ≠ 'u') (he : simpleEscape? d = some e)
    (h : stringWithin escape n cs = .ok (read, rest)) :
    stringWithin escape (n + 1) ('\\' :: d :: cs) = .ok (e :: read, rest) := by
  rw [stringWithin, if_neg (by decide), if_pos rfl]
  · simp only [he, h]
    rfl
  · exact hd

theorem stringWithin_unicode {e : Char} {more : List Char} (he : escape more = .ok (e, cs))
    (h : stringWithin escape n cs = .ok (read, rest)) :
    stringWithin escape (n + 1) ('\\' :: 'u' :: more) = .ok (e :: read, rest) := by
  rw [stringWithin, if_neg (by decide), if_pos rfl, he]
  simp only [bind, Except.bind, h]
  rfl

theorem stringWithin_plain {c : Char} (hquote : c ≠ '"') (hslash : c ≠ '\\')
    (hlow : ¬c.toNat < 0x20) (h : stringWithin escape n cs = .ok (read, rest)) :
    stringWithin escape (n + 1) (c :: cs) = .ok (c :: read, rest) := by
  rw [stringWithin.eq_def]
  simp only [if_neg hquote, if_neg hslash, if_neg hlow, h]
  rfl

end

/-- A string is read character by character, up to the quote that ends it. -/
theorem stringWithin_of_spellsChars {cs text : List Char} (h : SpellsChars cs text)
    (rest : List Char) (n : Nat) (hn : text.length < n) :
    stringWithin unicodeEscape n (text ++ '"' :: rest) = .ok (cs, rest) := by
  induction h generalizing n with
  | nil =>
    obtain ⟨n, rfl⟩ : ∃ m, n = m + 1 := ⟨n - 1, by omega⟩
    rfl
  | @cons c cs text more hc hcs ih =>
    obtain ⟨n, rfl⟩ : ∃ m, n = m + 1 := ⟨n - 1, by omega⟩
    rw [List.length_append] at hn
    rw [List.append_assoc]
    -- A character has one text or another, and each is read in one step.
    cases hc with
    | plain hquote hslash hcontrol =>
      exact stringWithin_plain hquote hslash hcontrol (ih n (by simp at hn; omega))
    | letter h =>
      obtain ⟨hescape, hnot⟩ := simpleEscape?_of_mem h
      exact stringWithin_simple hnot hescape (ih n (by simp at hn; omega))
    | unit h =>
      exact stringWithin_unicode (unicodeEscape_unit h _) (ih n (by simp at hn; omega))
    | @surrogates _ _ first second hfirst hsecond hhigh hlow hc =>
      have hescape : unicodeEscape (first ++ '\\' :: 'u' :: second ++ (more ++ '"' :: rest)) =
          .ok (c, more ++ '"' :: rest) := by
        rw [List.append_assoc]
        exact unicodeEscape_surrogates hfirst hsecond hhigh hlow hc _
      exact stringWithin_unicode hescape (ih n (by simp at hn; omega))

theorem stringRest_of_spellsChars {s : String} {text : List Char} (h : SpellsChars s.toList text)
    (rest : List Char) : stringRest (text ++ '"' :: rest) = .ok (s, rest) := by
  have hn : text.length < (text ++ '"' :: rest).length + 1 := by
    rw [List.length_append]
    omega
  rw [stringRest, stringWithin_of_spellsChars h rest _ hn]
  simp only [bind, Except.bind, String.ofList_toList]
  rfl

theorem string_reads (s : String) : Reads string (.string s) s := by
  intro before text rest hbefore htext _
  cases htext with
  | string h =>
    cases h with
    | mk h =>
      rw [string, skipBlanks_append hbefore, List.cons_append, skipBlanks_of_not rfl,
        List.append_assoc]
      exact stringRest_of_spellsChars h rest

/-! ## Truth values -/

theorem bool_reads (b : Bool) : Reads bool (.bool b) b := by
  intro before text rest hbefore htext _
  cases htext
  rw [bool, skipBlanks_append hbefore]
  cases b <;> rfl

/-! ## Numbers -/

section

variable {short : Fault} {rest : List Char}

/-- Behind a value no number goes on. -/
theorem Stops.head (h : Stops rest) :
    ∀ c ∈ rest.head?, c.isDigit = false ∧ c ≠ '.' ∧ c ≠ 'e' ∧ c ≠ 'E' := by
  cases rest with
  | nil => simp
  | cons d tail =>
    intro c hc
    obtain rfl : d = c := by simpa using hc
    rcases h with hblank | rfl | rfl | rfl
    · simp only [isBlank, Bool.or_eq_true, beq_iff_eq] at hblank
      rcases hblank with ((rfl | rfl) | rfl) | rfl <;> decide
    all_goals decide

theorem IsExponent.head {power : List Char} (h : IsExponent power) (hrest : Stops rest) :
    ∀ c ∈ (power ++ rest).head?, c.isDigit = false ∧ c ≠ '.' := by
  cases h with
  | absent => exact fun c hc => ⟨(hrest.head c hc).1, (hrest.head c hc).2.1⟩
  | present hmark =>
    intro c hc
    obtain rfl : _ = c := by simpa using hc
    rcases hmark with rfl | rfl <;> decide

theorem IsFraction.head {fraction : List Char} (h : IsFraction fraction)
    (hrest : ∀ c ∈ rest.head?, c.isDigit = false) :
    ∀ c ∈ (fraction ++ rest).head?, c.isDigit = false := by
  cases h with
  | absent => exact hrest
  | present => simp

theorem someDigits_append {digits : List Char} (h : IsDigits digits)
    (hrest : ∀ c ∈ rest.head?, c.isDigit = false) :
    someDigits short (digits ++ rest) = .ok (digits, rest) := by
  have htake : rest.takeWhile Char.isDigit = [] ∧ rest.dropWhile Char.isDigit = rest := by
    cases rest with
    | nil => exact ⟨rfl, rfl⟩
    | cons c tail =>
      have hc := hrest c rfl
      rw [List.takeWhile_cons_of_neg (by simp [hc]), List.dropWhile_cons_of_neg (by simp [hc])]
      exact ⟨rfl, rfl⟩
  obtain ⟨hne, hdigits⟩ := h
  obtain ⟨c, tail, rfl⟩ := List.exists_cons_of_ne_nil hne
  rw [someDigits, List.takeWhile_append_of_pos hdigits, List.dropWhile_append_of_pos hdigits,
    htake.1, htake.2, List.append_nil]

theorem wholeDigits_append {whole : List Char} (h : IsWhole whole)
    (hrest : ∀ c ∈ rest.head?, c.isDigit = false) :
    wholeDigits short (whole ++ rest) = .ok (whole, rest) := by
  rcases h with rfl | ⟨hdigits, hhead⟩
  · -- A zero stands alone.
    cases rest with
    | nil => rfl
    | cons c tail =>
      change (if c.isDigit then _ else _) = _
      rw [hrest c rfl]
      rfl
  · rw [wholeDigits]
    · exact someDigits_append hdigits hrest
    · rintro c tail heq
      obtain ⟨d, more, rfl⟩ := List.exists_cons_of_ne_nil hdigits.1
      obtain ⟨rfl, -⟩ := List.cons.inj heq
      exact hhead rfl

theorem fractionDigits_of_head (h : ∀ c ∈ rest.head?, c ≠ '.') :
    fractionDigits short rest = .ok (none, rest) := by
  rw [fractionDigits]
  rintro tail rfl
  exact h '.' rfl rfl

theorem fractionDigits_append (short : Fault) {fraction : List Char} (h : IsFraction fraction)
    (hrest : ∀ c ∈ rest.head?, c.isDigit = false ∧ c ≠ '.') :
    ∃ digits, fractionDigits short (fraction ++ rest) = .ok (digits, rest) := by
  cases h with
  | absent => exact ⟨none, fractionDigits_of_head fun c hc => (hrest c hc).2⟩
  | @present digits h =>
    refine ⟨some digits, ?_⟩
    rw [List.cons_append, fractionDigits, someDigits_append h fun c hc => (hrest c hc).1]
    rfl

theorem exponent_of_head (h : ∀ c ∈ rest.head?, c ≠ 'e' ∧ c ≠ 'E') :
    exponent short rest = .ok (none, rest) := by
  cases rest with
  | nil => rfl
  | cons c tail =>
    rw [exponent.eq_def]
    simp only [if_neg (not_or.2 (h c rfl))]

theorem exponent_append (short : Fault) {power : List Char} (h : IsExponent power)
    (hrest : Stops rest) :
    ∃ value, exponent short (power ++ rest) = .ok (value, rest) := by
  cases h with
  | absent => exact ⟨none, exponent_of_head fun c hc => (hrest.head c hc).2.2⟩
  | @present mark sign digits hmark hsign h =>
    have hdigits : someDigits short (digits ++ rest) = .ok (digits, rest) :=
      someDigits_append h fun c hc => (hrest.head c hc).1
    rw [List.cons_append, exponent.eq_def]
    simp only [if_pos hmark, List.append_assoc]
    rcases hsign with rfl | rfl | rfl
    · refine ⟨some (digitsValue digits), ?_⟩
      -- A digit is no sign.
      obtain ⟨c, tail, rfl⟩ := List.exists_cons_of_ne_nil h.1
      have hc := h.2 c List.mem_cons_self
      rw [List.nil_append]
      split
      · rename_i heq
        exact absurd (List.cons.inj heq).1 (ne_of_isDigit hc rfl)
      · rename_i heq
        exact absurd (List.cons.inj heq).1 (ne_of_isDigit hc rfl)
      · rw [hdigits]
        rfl
    · refine ⟨some (digitsValue digits), ?_⟩
      simp only [List.cons_append, List.nil_append, hdigits]
      rfl
    · refine ⟨some (-(digitsValue digits)), ?_⟩
      simp only [List.cons_append, List.nil_append, hdigits]
      rfl

/-- The digits of a number are passed over up to what stands behind the value. -/
theorem skipNumber_append {cs : List Char} (h : IsUnsigned cs) (hrest : Stops rest) :
    skipNumber (cs ++ rest) = .ok ((), rest) := by
  obtain ⟨hwhole, hfraction, hexponent⟩ := h
  rename_i whole fraction power
  have hhead := hexponent.head hrest
  have hhead' := hfraction.head fun c hc => (hhead c hc).1
  obtain ⟨digits, hdigits⟩ := fractionDigits_append .malformed hfraction hhead
  obtain ⟨value, hvalue⟩ := exponent_append .malformed hexponent hrest
  simp only [skipNumber, List.append_assoc, wholeDigits_append hwhole hhead', bind, Except.bind,
    hdigits, hvalue]
  rfl

/-- The digits of a number spell it. -/
theorem digitsValue_repr (n : Nat) : digitsValue n.repr.toList = n := by
  rw [Nat.toList_repr]
  have hdigit : ∀ d < 10, d.digitChar.toNat - '0'.toNat = d := by decide
  induction n using Nat.strongRecOn with
  | _ n ih =>
    rw [Nat.toDigits_eq_if (by decide)]
    split
    · rename_i hlt
      change 0 * 10 + (n.digitChar.toNat - '0'.toNat) = n
      rw [hdigit n hlt]
      omega
    · have hrest := ih (n / 10) (by omega)
      rw [digitsValue] at hrest ⊢
      rw [List.foldl_append, hrest, List.foldl_cons, List.foldl_nil, hdigit _ (by omega)]
      omega

/-- A whole number of 64 bits is read as it is, but for zero with a minus sign. -/
theorem number_repr (negative : Bool) {n : Nat} (hn : n < wordSize) (hrest : Stops rest) :
    number negative (n.repr.toList ++ rest) = .ok
      (if negative then if n = 0 ∨ signedSize < n then .decimal else .integer (-n)
        else .integer n, rest) := by
  have hhead := hrest.head
  have hwhole : wholeDigits .endOfText (n.repr.toList ++ rest) = .ok (n.repr.toList, rest) :=
    wholeDigits_append (isWhole_repr n) fun c hc => (hhead c hc).1
  simp only [number, hwhole, bind, Except.bind, exponent_of_head fun c hc => (hhead c hc).2.2,
    fractionDigits_of_head fun c hc => (hhead c hc).2.1, Option.getD_none, List.append_nil,
    digitsValue_repr, Option.isNone_none, Bool.true_and, hn, decide_true, if_true]
  cases negative
  · rfl
  · simp only [if_true]
    split <;> rfl

-- The two lemmas are stated for any value, because the comparison with its bound would be evaluated if
-- the digits of a number stood in its place.

theorem int64_of_digit {before cs : List Char} {c : Char} {value : Int} (hbefore : Blank before)
    (hc : c.isDigit = true) (hnumber : number false (c :: cs) = .ok (.integer value, rest))
    (hvalue : value < signedSize) : int64 (before ++ c :: cs) = .ok (value, rest) := by
  rw [int64, skipBlanks_append hbefore, skipBlanks_of_not (isBlank_of_isDigit hc)]
  split
  · rename_i heq
    exact absurd (List.cons.inj heq).1 (ne_of_isDigit hc rfl)
  · rename_i heq
    obtain ⟨rfl, rfl⟩ := List.cons.inj heq
    rw [if_pos hc, hnumber]
    exact if_pos hvalue
  · rename_i heq
    exact absurd heq (List.cons_ne_nil _ _)

theorem int64_of_minus {before cs : List Char} {value : Int} (hbefore : Blank before)
    (hnumber : number true cs = .ok (.integer value, rest)) (hvalue : value < signedSize) :
    int64 (before ++ '-' :: cs) = .ok (value, rest) := by
  rw [int64, skipBlanks_append hbefore, skipBlanks_of_not rfl]
  simp only [hnumber]
  exact if_pos hvalue

/-- **A whole number of 64 bits is read as it is.** -/
theorem int64_reads {n : Int} (hlow : -(signedSize : Int) ≤ n) (hhigh : n < signedSize) :
    Reads int64 (.integer n) n := by
  intro before text rest hbefore htext hrest
  cases htext
  have hsizes : signedSize < wordSize := by decide
  cases n with
  | ofNat n =>
    rw [Int.ofNat_eq_natCast] at hhigh
    have hnumber := number_repr false (n := n) (by omega) hrest
    obtain ⟨c, tail, hdigits, hc⟩ := (isWhole_repr n).head
    rw [hdigits] at hnumber
    change int64 (before ++ (n.repr.toList ++ rest)) = _
    rw [hdigits]
    exact int64_of_digit hbefore hc hnumber hhigh
  | negSucc n =>
    have hnumber := number_repr true (n := n + 1) (by omega) hrest
    rw [if_pos rfl, if_neg (by omega)] at hnumber
    change int64 (before ++ (("-" ++ (n + 1).repr).toList ++ rest)) = _
    rw [String.toList_append, List.append_assoc]
    exact int64_of_minus hbefore hnumber (by omega)

end

/-! ## Lists -/

section

variable {σ : Type} {element : σ → Reader σ} {blanks behind before : List Char}

theorem elementsWithin_closer (n : Nat) (first : Bool) (state : σ) (h : Blank blanks)
    (rest : List Char) :
    elementsWithin element (n + 1) first state (blanks ++ ']' :: rest) = .ok (state, rest) := by
  rw [elementsWithin, skipBlanks_append h, skipBlanks_of_not rfl]
  exact if_pos rfl

theorem elementsWithin_first (n : Nat) (state : σ) (h : Blank before) {c : Char}
    {cs : List Char} (hblank : isBlank c = false) (hcloser : c ≠ ']') :
    elementsWithin element (n + 1) true state (before ++ c :: cs) =
      (element state (c :: cs)).bind fun read =>
        elementsWithin element n false read.1 read.2 := by
  rw [elementsWithin, skipBlanks_append h, skipBlanks_of_not hblank]
  simp only [if_neg hcloser, if_true]
  rfl

theorem elementsWithin_comma (n : Nat) (state : σ) (hbehind : Blank behind)
    (hbefore : Blank before) {c : Char} {cs : List Char} (hblank : isBlank c = false)
    (hcloser : c ≠ ']') :
    elementsWithin element (n + 1) false state (behind ++ ',' :: (before ++ c :: cs)) =
      (element state (c :: cs)).bind fun read =>
        elementsWithin element n false read.1 read.2 := by
  rw [elementsWithin, skipBlanks_append hbehind, skipBlanks_of_not rfl]
  simp only [skipBlanks_append hbefore, skipBlanks_of_not hblank, Bool.false_eq_true, if_false]
  rw [if_neg (by decide), if_pos trivial]
  split
  · rename_i heq
    exact absurd heq (List.cons_ne_nil _ _)
  · rename_i heq
    exact absurd (List.cons.inj heq).1 hcloser
  · rfl

end

/-- One element more of a list. -/
def collect {α : Type} (element : Reader α) (found : List α) : Reader (List α) := fun cs => do
  let (value, rest) ← element cs
  return (found ++ [value], rest)

section

variable {α : Type} {element : Reader α}

theorem collect_of_reads {v : Datum} {a : α} (h : Reads element v a) (found : List α)
    {text rest : List Char} (htext : Spells v text) (hrest : Stops rest) :
    collect element found (text ++ rest) = .ok (found ++ [a], rest) := by
  have helement : element (text ++ rest) = .ok (a, rest) :=
    h [] text rest blank_nil htext hrest
  rw [collect, helement]
  rfl

/-- The elements behind the first one are read up to the end of the list. -/
theorem elementsWithin_of_spells {values : List α} {vs : List Datum}
    (h : List.Forall₂ (fun a v => Reads element v a) values vs) {more : List Char}
    (hmore : SpellsElements vs more) (rest : List Char) (found : List α) (n : Nat)
    (hn : more.length < n) :
    elementsWithin (collect element) n false found (more ++ ']' :: rest) =
      .ok (found ++ values, rest) := by
  -- The induction is on the elements: each takes one step and a comma at least.
  induction h generalizing more found n with
  | nil =>
    obtain ⟨n, rfl⟩ : ∃ m, n = m + 1 := ⟨n - 1, by omega⟩
    cases hmore with
    | nil hblanks =>
      rw [List.append_nil]
      exact elementsWithin_closer n false found hblanks rest
  | @cons a v values vs ha _ ih =>
    obtain ⟨n, rfl⟩ : ∃ m, n = m + 1 := ⟨n - 1, by omega⟩
    cases hmore with
    | @cons _ _ behind before text more hbehind hbefore hv hmore =>
      have hread := collect_of_reads ha found hv (hmore.stops rest)
      obtain ⟨c, tail, rfl, hblank, hcloser⟩ := hv.head
      simp only [List.append_assoc, List.cons_append] at hread ⊢
      rw [elementsWithin_comma n found hbehind hbefore hblank hcloser, hread]
      have hlength : more.length < n := by
        simp only [List.length_append, List.length_cons] at hn
        omega
      have hothers := ih hmore (found ++ [a]) n hlength
      rw [List.append_assoc] at hothers
      exact hothers

/-- **A list is read if its elements are.** -/
theorem list_reads {values : List α} {vs : List Datum}
    (h : List.Forall₂ (fun a v => Reads element v a) values vs) :
    Reads (list element) (.list vs) values := by
  intro blanks text rest hblanks htext _
  have hopened : ∀ cs, list element (blanks ++ '[' :: cs) =
      elementsWithin (collect element) (cs.length + 1) true [] cs := by
    intro cs
    rw [list, skipBlanks_append hblanks, skipBlanks_of_not rfl]
    rfl
  cases htext with
  | emptyList hinner =>
    cases h
    rw [List.cons_append, hopened, List.append_assoc]
    exact elementsWithin_closer _ true [] hinner rest
  | @list v vs before text more hbefore hv hmore =>
    cases h with
    | @cons a _ values _ ha hvalues =>
      have hread := collect_of_reads ha [] hv (hmore.stops rest)
      have hlength : more.length < (before ++ (text ++ (more ++ [']'])) ++ rest).length := by
        simp only [List.length_append, List.length_cons]
        omega
      obtain ⟨c, tail, rfl, hblank, hcloser⟩ := hv.head
      rw [List.cons_append, hopened]
      simp only [List.append_assoc, List.cons_append, List.nil_append] at hread hlength ⊢
      rw [elementsWithin_first _ [] hbefore hblank hcloser, hread]
      exact elementsWithin_of_spells hvalues hmore rest [a] _ hlength

end

/-! ## Objects -/

section

variable {σ : Type} {member : σ → String → Reader σ} {blanks behind before : List Char}

/-- The reader takes every text of a member off the front, from behind its name, and changes the state
with it. -/
def ReadsMember (member : σ → String → Reader σ) (state : σ) (name : String) (v : Datum)
    (after : σ) : Prop :=
  ∀ behind between text rest, Blank behind → Blank between → Spells v text → Stops rest →
    member state name (behind ++ ':' :: (between ++ (text ++ rest))) = .ok (after, rest)

/-- Some members are read one after the other. -/
inductive ReadsAll (member : σ → String → Reader σ) : σ → List (String × Datum) → σ → Prop
  | nil (state : σ) : ReadsAll member state [] state
  | cons {state next after : σ} {name : String} {v : Datum} {ms : List (String × Datum)}
      (hfirst : ReadsMember member state name v next) (hmore : ReadsAll member next ms after) :
      ReadsAll member state ((name, v) :: ms) after

/-- What is done behind the opening quote of a name. -/
def named (member : σ → String → Reader σ) (n : Nat) (state : σ) : Reader σ := fun cs => do
  let (name, rest) ← stringRest cs
  let (state, rest) ← member state name rest
  membersWithin member n false state rest

theorem membersWithin_closer (n : Nat) (first : Bool) (state : σ) (h : Blank blanks)
    (rest : List Char) :
    membersWithin member (n + 1) first state (blanks ++ '\x7d' :: rest) = .ok (state, rest) := by
  rw [membersWithin, skipBlanks_append h, skipBlanks_of_not rfl]
  exact if_pos rfl

theorem membersWithin_first (n : Nat) (state : σ) (h : Blank before) (cs : List Char) :
    membersWithin member (n + 1) true state (before ++ '"' :: cs) = named member n state cs := by
  rw [membersWithin, skipBlanks_append h, skipBlanks_of_not rfl]
  rfl

theorem membersWithin_comma (n : Nat) (state : σ) (hbehind : Blank behind)
    (hbefore : Blank before) (cs : List Char) :
    membersWithin member (n + 1) false state (behind ++ ',' :: (before ++ '"' :: cs)) =
      named member n state cs := by
  rw [membersWithin, skipBlanks_append hbehind, skipBlanks_of_not rfl]
  simp only [skipBlanks_append hbefore, skipBlanks_of_not (c := '"') rfl]
  rfl

/-- A member is read, and what is behind it is read with the state after it. -/
theorem named_of_readsMember {state next : σ} {name : String} {v : Datum} (n : Nat)
    (h : ReadsMember member state name v next) {inner behind between text rest : List Char}
    (hname : SpellsChars name.toList inner) (hbehind : Blank behind) (hbetween : Blank between)
    (hv : Spells v text) (hrest : Stops rest) :
    named member n state (inner ++ '"' :: (behind ++ ':' :: (between ++ (text ++ rest)))) =
      membersWithin member n false next rest := by
  rw [named, stringRest_of_spellsChars hname]
  simp only [bind, Except.bind, h behind between text rest hbehind hbetween hv hrest]

/-- The members behind the first one are read up to the end of the object. -/
theorem membersWithin_of_spells {state after : σ} {ms : List (String × Datum)}
    (h : ReadsAll member state ms after) {more : List Char} (hmore : SpellsMembers ms more)
    (rest : List Char) (n : Nat) (hn : more.length < n) :
    membersWithin member n false state (more ++ '\x7d' :: rest) = .ok (after, rest) := by
  induction h generalizing more n with
  | nil state =>
    obtain ⟨n, rfl⟩ : ∃ m, n = m + 1 := ⟨n - 1, by omega⟩
    cases hmore with
    | nil hblanks => exact membersWithin_closer n false state hblanks rest
  | @cons state next after name v ms hfirst _ ih =>
    obtain ⟨n, rfl⟩ : ∃ m, n = m + 1 := ⟨n - 1, by omega⟩
    cases hmore with
    | @cons _ _ _ comma before label between text more hcomma hbefore hname hbetween hv hmore =>
      obtain ⟨inner, behind, hinner, hbehind, rfl⟩ := hname.eq
      have hlength : more.length < n := by
        simp only [List.length_append, List.length_cons] at hn
        omega
      simp only [List.append_assoc, List.cons_append, List.nil_append]
      rw [membersWithin_comma n state hcomma hbefore,
        named_of_readsMember n hfirst hinner hbehind hbetween hv (hmore.stops rest)]
      exact ih hmore n hlength

/-- **An object is read if its members are, one after the other.** -/
theorem membersWithin_of_readsAll {state after : σ} {ms : List (String × Datum)}
    (h : ReadsAll member state ms after) {text : List Char} (htext : Spells (.object ms) text) :
    ∃ inner, text = '\x7b' :: inner ∧ ∀ rest,
      membersWithin member ((inner ++ rest).length + 1) true state (inner ++ rest) =
        .ok (after, rest) := by
  cases htext with
  | emptyObject hblanks =>
    cases h
    refine ⟨_, rfl, fun rest => ?_⟩
    rw [List.append_assoc]
    exact membersWithin_closer _ true state hblanks rest
  | @object _ _ _ before label between text more hbefore hname hbetween hv hmore =>
    cases h with
    | cons hfirst hothers =>
      refine ⟨_, rfl, fun rest => ?_⟩
      -- The first member has no comma before it; the others are those of the lemma above.
      have hlength : more.length < (before ++ (label ++ (between ++ (text ++ (more ++ ['\x7d'])))) ++
          rest).length := by
        simp only [List.length_append, List.length_cons]
        omega
      obtain ⟨inner, behind, hinner, hbehind, rfl⟩ := hname.eq
      simp only [List.append_assoc, List.cons_append, List.nil_append] at hlength ⊢
      rw [membersWithin_first _ state hbefore,
        named_of_readsMember _ hfirst hinner hbehind hbetween hv (hmore.stops rest)]
      exact membersWithin_of_spells hothers hmore rest _ hlength

end

end PinnedImports.Json
