import PinnedImports.Proofs.Json.Reading

/-!
# Passing over the texts of a value

The reader passes over every text of every value and stops behind it (`skipValue_reads`), however
deep its brackets are. What it passes over is followed step by step: no character is read in more than
two steps, so the reader has steps enough.
-/

set_option autoImplicit false

namespace PinnedImports.Json

/-! ## Atoms -/

/-- The reader of a `\u` escape that passes over its digits. -/
def passUnit : Reader Char := fun cs => return ('?', (← hexQuad cs).2)

theorem passUnit_of_spellsUnit {n : Nat} {digits : List Char} (h : SpellsUnit n digits)
    (rest : List Char) : passUnit (digits ++ rest) = .ok ('?', rest) := by
  rw [passUnit, hexQuad_of_spellsUnit h]
  rfl

/-- The characters of a string are passed over one by one, up to the quote that ends it. -/
theorem stringWithin_passUnit {cs text : List Char} (h : SpellsChars cs text) (rest : List Char)
    (n : Nat) (hn : text.length < n) :
    ∃ read, stringWithin passUnit n (text ++ '"' :: rest) = .ok (read, rest) := by
  induction h generalizing n with
  | nil =>
    obtain ⟨n, rfl⟩ : ∃ m, n = m + 1 := ⟨n - 1, by omega⟩
    exact ⟨[], rfl⟩
  | @cons c cs text more hc hcs ih =>
    rw [List.length_append] at hn
    rw [List.append_assoc]
    cases hc with
    | plain hquote hslash hcontrol =>
      obtain ⟨n, rfl⟩ : ∃ m, n = m + 1 := ⟨n - 1, by omega⟩
      obtain ⟨read, hread⟩ := ih n (by simp at hn; omega)
      exact ⟨c :: read, stringWithin_plain hquote hslash hcontrol hread⟩
    | letter h =>
      obtain ⟨n, rfl⟩ : ∃ m, n = m + 1 := ⟨n - 1, by omega⟩
      obtain ⟨hescape, hnot⟩ := simpleEscape?_of_mem h
      obtain ⟨read, hread⟩ := ih n (by simp at hn; omega)
      exact ⟨c :: read, stringWithin_simple hnot hescape hread⟩
    | unit h =>
      obtain ⟨n, rfl⟩ : ∃ m, n = m + 1 := ⟨n - 1, by omega⟩
      obtain ⟨read, hread⟩ := ih n (by simp at hn; omega)
      exact ⟨'?' :: read, stringWithin_unicode (passUnit_of_spellsUnit h _) hread⟩
    | @surrogates _ _ first second hfirst hsecond =>
      -- Both surrogates are passed over, each in a step of its own.
      obtain ⟨n, rfl⟩ : ∃ m, n = m + 2 := ⟨n - 2, by simp at hn; omega⟩
      obtain ⟨read, hread⟩ := ih n (by simp at hn; omega)
      have htwo : stringWithin passUnit (n + 1)
          ('\\' :: 'u' :: (second ++ (more ++ '"' :: rest))) = .ok ('?' :: read, rest) :=
        stringWithin_unicode (passUnit_of_spellsUnit hsecond _) hread
      have hone : passUnit (first ++ '\\' :: 'u' :: second ++ (more ++ '"' :: rest)) =
          .ok ('?', '\\' :: 'u' :: (second ++ (more ++ '"' :: rest))) := by
        rw [List.append_assoc]
        exact passUnit_of_spellsUnit hfirst _
      exact ⟨'?' :: '?' :: read, stringWithin_unicode hone htwo⟩

theorem skipString_of_spellsChars {cs text : List Char} (h : SpellsChars cs text)
    (rest : List Char) : skipString (text ++ '"' :: rest) = .ok ((), rest) := by
  have hn : text.length < (text ++ '"' :: rest).length + 1 := by
    rw [List.length_append]
    omega
  obtain ⟨read, hread⟩ := stringWithin_passUnit h rest _ hn
  have hskip : ∀ cs, skipString cs =
      (stringWithin passUnit (cs.length + 1) cs).bind fun passed => .ok ((), passed.2) :=
    fun _ => rfl
  rw [hskip, hread]
  rfl

/-! ## Steps -/

/-- What a reader does behind a value, inside the brackets that are open around it. -/
def continued (n : Nat) (brackets : List Bracket) (rest : List Char) :
    Except Fault (Unit × List Char) :=
  if brackets.isEmpty then .ok ((), rest) else skipWithin n brackets .closed rest

/-- From a place the reader passes over a text, in no more than two steps for each character, and goes
on behind a value inside the brackets `outer`. -/
def Passes (brackets : List Bracket) (place : Place) (text : List Char) (outer : List Bracket)
    (rest : List Char) : Prop :=
  ∃ k ≤ 2 * text.length, ∀ n,
    skipWithin (n + k) brackets place (text ++ rest) = continued n outer rest

variable {brackets outer : List Bracket} {rest : List Char}

theorem skipWithin_atom (n : Nat) {c : Char} {cs : List Char} (hblank : isBlank c = false)
    (hlist : c ≠ '[') (hobject : c ≠ '\x7b') :
    skipWithin (n + 1) brackets .value (c :: cs) =
      (skipAtom c cs).bind fun passed => continued n brackets passed.2 := by
  rw [skipWithin, skipBlanks_of_not hblank]
  -- Of the cases of a value only that of an atom is left.
  split
  · rename_i heq
    exact absurd heq (List.cons_ne_nil _ _)
  · rename_i heq
    exact absurd (List.cons.inj heq).1 hlist
  · rename_i heq
    exact absurd (List.cons.inj heq).1 hobject
  · rename_i heq
    obtain ⟨rfl, rfl⟩ := List.cons.inj heq
    rfl

/-- A value that is no bracket is passed over in one step. -/
theorem passes_atom {c : Char} {cs : List Char} (hblank : isBlank c = false) (hlist : c ≠ '[')
    (hobject : c ≠ '\x7b') (h : skipAtom c (cs ++ rest) = .ok ((), rest)) :
    Passes brackets .value (c :: cs) brackets rest := by
  refine ⟨1, by rw [List.length_cons]; omega, fun n => ?_⟩
  rw [List.cons_append, skipWithin_atom n hblank hlist hobject, h]
  rfl

/-- Blanks in front of a value are passed over with it. -/
theorem Passes.blanks {blanks text : List Char} (hblanks : Blank blanks)
    (h : Passes brackets .value text outer rest) :
    Passes brackets .value (blanks ++ text) outer rest := by
  obtain ⟨k, hk, hsteps⟩ := h
  refine ⟨k, by rw [List.length_append]; omega, fun n => ?_⟩
  rw [← hsteps n, List.append_assoc]
  -- Without a step left both readers give up, and otherwise the first step skips the blanks.
  cases hn : n + k with
  | zero => rfl
  | succ m => rw [skipWithin, skipWithin, skipBlanks_append hblanks]

theorem passes_numeral {cs : List Char} (h : IsNumeral cs) (hrest : Stops rest) :
    Passes brackets .value cs brackets rest := by
  cases h with
  | positive h =>
    have hskip := skipNumber_append h hrest
    obtain ⟨c, tail, rfl, hc⟩ := h.head
    apply passes_atom (isBlank_of_isDigit hc) (ne_of_isDigit hc rfl) (ne_of_isDigit hc rfl)
    rw [skipAtom, if_neg (ne_of_isDigit hc rfl), if_neg (ne_of_isDigit hc rfl),
      if_neg (ne_of_isDigit hc rfl), if_neg (ne_of_isDigit hc rfl), if_pos hc]
    exact hskip
  | negative h => exact passes_atom rfl (by decide) (by decide) (skipNumber_append h hrest)

/-! ## Brackets -/

/-- The character that opens a bracket. -/
def Bracket.opener : Bracket → Char
  | list => '['
  | object => '\x7b'

/-- The character that closes a bracket. -/
def Bracket.closer : Bracket → Char
  | list => ']'
  | object => '\x7d'

theorem Bracket.closer_eq (bracket : Bracket) :
    (if bracket = .list then ']' else '\x7d') = bracket.closer := by
  cases bracket <;> rfl

theorem Bracket.isBlank_closer (bracket : Bracket) : isBlank bracket.closer = false := by
  cases bracket <;> rfl

theorem skipWithin_opener (n : Nat) (bracket : Bracket) (cs : List Char) :
    skipWithin (n + 1) brackets .value (bracket.opener :: cs) =
      skipWithin n (bracket :: brackets) .opened cs := by
  cases bracket <;> rw [skipWithin] <;> rfl

section Steps

variable {bracket : Bracket} {c : Char} {cs tail : List Char}

theorem skipWithin_opened (n : Nat) (h : skipBlanks cs = c :: tail) :
    skipWithin (n + 1) (bracket :: outer) .opened cs =
      if c = bracket.closer then continued n outer tail
      else (do
        let (_, rest) ← skipName (bracket :: outer) (c :: tail)
        skipWithin n (bracket :: outer) .value rest) := by
  rw [skipWithin.eq_def]
  simp only [h, bracket.closer_eq]
  rfl

theorem skipWithin_closed (n : Nat) (h : skipBlanks cs = c :: tail) :
    skipWithin (n + 1) (bracket :: outer) .closed cs =
      if c = bracket.closer then continued n outer tail
      else if c = ',' then do
        let (_, rest) ← skipName (bracket :: outer) tail
        skipWithin n (bracket :: outer) .value rest
      else .error .malformed := by
  rw [skipWithin.eq_def]
  simp only [h, bracket.closer_eq]
  rfl

end Steps

variable {bracket : Bracket}

theorem skipBlanks_closer {blanks : List Char} (h : Blank blanks) (bracket : Bracket) :
    skipBlanks (blanks ++ [bracket.closer] ++ rest) = bracket.closer :: rest := by
  rw [List.append_assoc, skipBlanks_append h]
  exact skipBlanks_of_not bracket.isBlank_closer rest

/-- Two brackets with blanks between them are a value. -/
theorem passes_empty {blanks : List Char} (h : Blank blanks) (bracket : Bracket) :
    Passes brackets .value (bracket.opener :: (blanks ++ [bracket.closer])) brackets rest := by
  refine ⟨2, by rw [List.length_cons]; omega, fun n => ?_⟩
  rw [List.cons_append, skipWithin_opener, skipWithin_opened n (skipBlanks_closer h bracket),
    if_pos rfl]

/-- The bracket is closed behind its last value. -/
theorem passes_closer {blanks : List Char} (h : Blank blanks) (bracket : Bracket) :
    Passes (bracket :: outer) .closed (blanks ++ [bracket.closer]) outer rest := by
  refine ⟨1, by simp; omega, fun n => ?_⟩
  rw [skipWithin_closed n (skipBlanks_closer h bracket), if_pos rfl]

/-- A value in a bracket, with its name in an object. -/
structure Entry (brackets : List Bracket) (label text rest : List Char) : Prop where
  label : ∀ cs, skipName brackets (label ++ cs) = .ok ((), cs)
  value : Passes brackets .value text brackets rest

/-- A comma and a value behind it come before what is left of the bracket. -/
theorem Entry.comma {blanks label text more : List Char}
    (h : Entry (bracket :: outer) label text (more ++ rest)) (hblanks : Blank blanks)
    (hmore : Passes (bracket :: outer) .closed more outer rest) :
    Passes (bracket :: outer) .closed (blanks ++ ',' :: (label ++ (text ++ more))) outer rest := by
  obtain ⟨k, hk, hsteps⟩ := h.value
  obtain ⟨l, hl, hbehind⟩ := hmore
  refine ⟨k + l + 1, ?_, fun n => ?_⟩
  · simp only [List.length_append, List.length_cons]
    omega
  · have hcomma : ',' ≠ bracket.closer := by cases bracket <;> decide
    have hblank : isBlank ',' = false := rfl
    have hclosed : skipBlanks (blanks ++ ',' :: (label ++ (text ++ more)) ++ rest) =
        ',' :: (label ++ (text ++ (more ++ rest))) := by
      rw [List.append_assoc, skipBlanks_append hblanks, List.cons_append, List.append_assoc,
        List.append_assoc]
      exact skipBlanks_of_not hblank _
    -- One step for the comma and the name, those for the value, and those for what is behind.
    rw [← Nat.add_assoc, skipWithin_closed _ hclosed, if_neg hcomma, if_pos rfl, h.label]
    change skipWithin (n + (k + l)) _ _ _ = _
    rw [Nat.add_comm k l, ← Nat.add_assoc, hsteps, continued, List.isEmpty_cons,
      if_neg Bool.false_ne_true, hbehind]

/-- A bracket that holds a value and what is left of it behind. -/
theorem Entry.passes {blanks label text more cs : List Char} {c : Char}
    (h : Entry (bracket :: brackets) label text (more ++ rest)) (hblanks : Blank blanks)
    (hhead : label ++ text = c :: cs) (hc : isBlank c = false) (hc' : c ≠ bracket.closer)
    (hmore : Passes (bracket :: brackets) .closed more brackets rest) :
    Passes brackets .value (bracket.opener :: (blanks ++ (label ++ (text ++ more)))) brackets
      rest := by
  obtain ⟨k, hk, hsteps⟩ := h.value
  obtain ⟨l, hl, hbehind⟩ := hmore
  refine ⟨k + l + 2, ?_, fun n => ?_⟩
  · simp only [List.length_cons, List.length_append]
    omega
  · have hcs : label ++ (text ++ (more ++ rest)) = c :: (cs ++ (more ++ rest)) := by
      rw [← List.append_assoc, hhead, List.cons_append]
    have hopened : skipBlanks (blanks ++ (label ++ (text ++ more)) ++ rest) =
        c :: (cs ++ (more ++ rest)) := by
      rw [List.append_assoc, skipBlanks_append hblanks, List.append_assoc, List.append_assoc, hcs]
      exact skipBlanks_of_not hc _
    change skipWithin (n + (k + l) + 1 + 1) _ _ _ = _
    rw [List.cons_append, skipWithin_opener, skipWithin_opened _ hopened, if_neg hc', ← hcs,
      h.label]
    change skipWithin (n + (k + l)) _ _ _ = _
    rw [Nat.add_comm k l, ← Nat.add_assoc, hsteps, continued, List.isEmpty_cons,
      if_neg Bool.false_ne_true, hbehind]

/-- The name of a member is passed over with its colon. -/
theorem skipName_label {before label : List Char} {name : String} (hbefore : Blank before)
    (h : SpellsName name label) (cs : List Char) :
    skipName (.object :: outer) (before ++ label ++ cs) = .ok ((), cs) := by
  obtain ⟨text, behind, htext, hbehind, rfl⟩ := h.eq
  simp only [List.append_assoc, List.cons_append, List.nil_append]
  rw [skipName, expect_append hbefore rfl]
  simp only [bind, Except.bind, skipString_of_spellsChars htext]
  exact expect_append hbehind rfl _ cs

/-! ## Values -/

-- The recursion is that of the texts: over values, the elements of a list and the members of an object.
mutual

/-- The text of a value is passed over. -/
theorem Spells.passes {v : Datum} {text : List Char} (h : Spells v text)
    (brackets : List Bracket) {rest : List Char} (hrest : Stops rest) :
    Passes brackets .value text brackets rest := by
  cases h with
  | null =>
    have hword : skipAtom 'n' ("ull".toList ++ rest) = .ok ((), rest) := rfl
    exact passes_atom rfl (by decide) (by decide) hword
  | bool b =>
    cases b
    · have hword : skipAtom 'f' ("alse".toList ++ rest) = .ok ((), rest) := rfl
      exact passes_atom rfl (by decide) (by decide) hword
    · have hword : skipAtom 't' ("rue".toList ++ rest) = .ok ((), rest) := rfl
      exact passes_atom rfl (by decide) (by decide) hword
  | integer n => exact passes_numeral (isNumeral_toString n) hrest
  | decimal h => exact passes_numeral h hrest
  | string h =>
    cases h with
    | mk h =>
      apply passes_atom rfl (by decide) (by decide)
      rw [List.append_assoc]
      exact skipString_of_spellsChars h rest
  | emptyList hblanks => exact passes_empty hblanks .list
  | @list v vs before text more hbefore hv hmore =>
    have hothers := hmore.passes brackets rest
    have hentry : Entry (.list :: brackets) [] text (more ++ [']'] ++ rest) :=
      ⟨fun _ => rfl, hv.passes _ (by rw [List.append_assoc]; exact hmore.stops rest)⟩
    obtain ⟨c, tail, hhead, hblank, hcloser⟩ := hv.head
    exact hentry.passes hbefore hhead hblank hcloser hothers
  | emptyObject hblanks => exact passes_empty hblanks .object
  | @object name v ms before label between text more hbefore hname hbetween hv hmore =>
    have hothers := hmore.passes brackets rest
    have hvalue := hv.passes (.object :: brackets) (hmore.stops rest)
    -- The blanks behind the bracket are skipped before the name is looked for.
    have hentry : Entry (.object :: brackets) label (between ++ text) (more ++ ['\x7d'] ++ rest) :=
      ⟨skipName_label blank_nil hname,
        (by rw [List.append_assoc]; exact hvalue.blanks hbetween)⟩
    obtain ⟨inner, behind, -, -, hlabel⟩ := hname.eq
    have hhead : label ++ (between ++ text) =
        '"' :: (inner ++ '"' :: (behind ++ [':']) ++ (between ++ text)) := by
      rw [hlabel, List.cons_append]
    have hobject := hentry.passes hbefore hhead rfl (by decide) hothers
    rw [List.append_assoc between text] at hobject
    exact hobject

/-- What is left of a list behind an element is passed over. -/
theorem SpellsElements.passes {vs : List Datum} {more : List Char} (h : SpellsElements vs more)
    (outer : List Bracket) (rest : List Char) :
    Passes (.list :: outer) .closed (more ++ [']']) outer rest := by
  cases h with
  | nil hblanks => exact passes_closer hblanks .list
  | @cons v vs behind before text more hbehind hbefore hv hmore =>
    have hothers := hmore.passes outer rest
    have hvalue := hv.passes (.list :: outer) (hmore.stops rest)
    have hentry : Entry (.list :: outer) [] (before ++ text) (more ++ [']'] ++ rest) :=
      ⟨fun _ => rfl, by rw [List.append_assoc]; exact hvalue.blanks hbefore⟩
    have hcomma := hentry.comma hbehind hothers
    simp only [List.append_assoc, List.cons_append, List.nil_append] at hcomma ⊢
    exact hcomma

/-- What is left of an object behind a member is passed over. -/
theorem SpellsMembers.passes {ms : List (String × Datum)} {more : List Char}
    (h : SpellsMembers ms more) (outer : List Bracket) (rest : List Char) :
    Passes (.object :: outer) .closed (more ++ ['\x7d']) outer rest := by
  cases h with
  | nil hblanks => exact passes_closer hblanks .object
  | @cons name v ms behind before label between text more hbehind hbefore hname hbetween hv hmore =>
    have hothers := hmore.passes outer rest
    have hvalue := hv.passes (.object :: outer) (hmore.stops rest)
    have hentry : Entry (.object :: outer) (before ++ label) (between ++ text)
        (more ++ ['\x7d'] ++ rest) :=
      ⟨skipName_label hbefore hname, by rw [List.append_assoc]; exact hvalue.blanks hbetween⟩
    have hcomma := hentry.comma hbehind hothers
    simp only [List.append_assoc, List.cons_append] at hcomma ⊢
    exact hcomma

end

/-- **The reader passes over every text of every value and stops behind it.** -/
theorem skipValue_reads (v : Datum) : Reads skipValue v () := by
  intro before text rest hbefore htext hrest
  obtain ⟨k, hk, hsteps⟩ := (htext.passes [] hrest).blanks hbefore
  rw [← List.append_assoc]
  -- The reader may make three steps for each character, and two are enough.
  have hfuel : 3 * (before ++ text ++ rest).length + 3 =
      3 * (before ++ text ++ rest).length + 3 - k + k := by
    rw [List.length_append]
    omega
  rw [skipValue, hfuel]
  exact hsteps _

end PinnedImports.Json
