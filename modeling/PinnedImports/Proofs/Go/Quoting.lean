import PinnedImports.Proofs.Go.Tokens
import PinnedImports.Proofs.Repository

/-!
# Quoted import paths

A path has one spelling between double quotes: `quote` writes it, and `unquote?` reads no other one
in which each double quote is escaped (`interpreted_iff`). Between backquotes a path stands as it is.
So quoting and reading are inverse to each other (`quote_roundtrip`).

The written literal is one token of the language, whatever follows it, unless the path has a line break.
Then no token stands at its place at all (`stringLength_quote`): a line break is written as it is, and
no string between double quotes goes on behind it.
-/

set_option autoImplicit false

namespace PinnedImports.Go

/-! ## Escapes -/

/-- The text with a backslash before each of the characters `q`. -/
def backslashed (q : Char) (cs : List Char) : List Char :=
  cs.flatMap fun c => if c = q then ['\\', c] else [c]

theorem backslashed_cons (q c : Char) (cs : List Char) :
    backslashed q (c :: cs) = (if c = q then ['\\', c] else [c]) ++ backslashed q cs :=
  List.flatMap_cons

theorem backslashed_append (q : Char) (a b : List Char) :
    backslashed q (a ++ b) = backslashed q a ++ backslashed q b :=
  List.flatMap_append

/-- Backslashes are escaped first, so those before double quotes are not escaped once more. -/
theorem escape_eq_backslashed (cs : List Char) :
    escape cs = backslashed '"' (backslashed '\\' cs) := by
  induction cs with
  | nil => rfl
  | cons c cs ih =>
    rw [backslashed_cons, backslashed_append, ← ih, escape]
    by_cases hslash : c = '\\'
    · subst hslash
      rfl
    · rw [if_neg hslash, backslashed_cons]
      by_cases hquote : c = '"'
      · subst hquote
        rfl
      · rw [if_neg hquote, if_neg (not_or.2 ⟨hslash, hquote⟩)]
        rfl

/-- Whether a double quote stands in the text that no backslash takes with it. -/
def hasBareQuote : List Char → Bool
  | '\\' :: _ :: rest => hasBareQuote rest
  | c :: rest => c == '"' || hasBareQuote rest
  | [] => false

theorem hasBareQuote_escape (cs : List Char) : hasBareQuote (escape cs) = false := by
  induction cs with
  | nil => rfl
  | cons c cs ih =>
    rw [escape]
    split
    · rw [hasBareQuote, ih]
    · rename_i hc
      rw [not_or] at hc
      rw [hasBareQuote, ih, Bool.or_false, beq_eq_false_iff_ne]
      · exact hc.2
      · rintro - - rfl
        exact absurd rfl hc.1

theorem eq_escape_of_unescape? {body path : List Char} (hbare : hasBareQuote body = false)
    (h : unescape? body = some path) : body = escape path := by
  fun_induction unescape? body generalizing path with
  | case1 =>
    rw [← Option.some.inj h]
    rfl
  | case2 c rest hc ih =>
    rw [hasBareQuote] at hbare
    obtain ⟨tail, htail, rfl⟩ := Option.map_eq_some_iff.1 h
    rw [escape, if_pos hc, ← ih hbare htail]
  | case3 => simp at h
  | case4 => simp at h
  | case5 c rest hpair hslash ih =>
    obtain ⟨tail, htail, rfl⟩ := Option.map_eq_some_iff.1 h
    rw [hasBareQuote, Bool.or_eq_false_iff, beq_eq_false_iff_ne] at hbare
    · rw [escape, if_neg (not_or.2 ⟨hslash, hbare.1⟩), ← ih hbare.2 htail]
    · exact hpair

/-- **The escaped text is the only one without bare quotes that is read as the path.** -/
theorem unescape?_eq_some_iff {body path : List Char} :
    hasBareQuote body = false ∧ unescape? body = some path ↔ body = escape path := by
  constructor
  · rintro ⟨hbare, h⟩
    exact eq_escape_of_unescape? hbare h
  · rintro rfl
    exact ⟨hasBareQuote_escape path, unescape?_escape path⟩

/-! ## Literals -/

/-- The literal with a text between double quotes. -/
def interpretedLiteral (body : List Char) : String := String.ofList ('"' :: body ++ ['"'])

/-- The literal with a text between backquotes. -/
def rawLiteral (body : List Char) : String := String.ofList ('`' :: body ++ ['`'])

/-- A literal between double quotes, between which every double quote is escaped. -/
def Interpreted (literal : String) : Prop :=
  ∃ body, hasBareQuote body = false ∧ literal = interpretedLiteral body

theorem unquote?_interpretedLiteral (body : List Char) :
    unquote? (interpretedLiteral body) = (unescape? body).map String.ofList := by
  rw [unquote?, interpretedLiteral, String.toList_ofList, List.cons_append, between?,
    if_neg (by decide), between?, if_pos rfl, Text.before?_eq_some.2 rfl,
    Option.bind_some]

theorem unquote?_rawLiteral (body : List Char) :
    unquote? (rawLiteral body) = some (String.ofList body) := by
  rw [unquote?, rawLiteral, String.toList_ofList, List.cons_append, between?, if_pos rfl,
    Text.before?_eq_some.2 rfl]

/-- A path is read back from its literal. -/
theorem unquote?_quote (path : String) : unquote? (quote path) = some path := by
  rw [quote, ← interpretedLiteral, unquote?_interpretedLiteral, unescape?_escape, Option.map_some,
    String.ofList_toList]

/-- **Every path has one literal between double quotes.** -/
theorem interpreted_iff {literal path : String} :
    Interpreted literal ∧ unquote? literal = some path ↔ literal = quote path := by
  constructor
  · rintro ⟨⟨body, hbare, rfl⟩, h⟩
    rw [unquote?_interpretedLiteral, Option.map_eq_some_iff] at h
    obtain ⟨cs, hcs, rfl⟩ := h
    rw [unescape?_eq_some_iff.1 ⟨hbare, hcs⟩, quote, String.toList_ofList, interpretedLiteral]
  · rintro rfl
    obtain ⟨hbare, -⟩ := unescape?_eq_some_iff.2 (rfl : escape path.toList = escape path.toList)
    exact ⟨⟨_, hbare, rfl⟩, unquote?_quote path⟩

/-- **Quoting and reading are inverse.** The literal of a path, in which backslashes are escaped and then
double quotes, is read as the path. It is the only literal between double quotes that is, if each double
quote has to be escaped. A literal between backquotes is read as what stands between them, and so is the
literal of that path. -/
theorem quote_roundtrip (path : String) :
    quote path = interpretedLiteral (backslashed '"' (backslashed '\\' path.toList)) ∧
      unquote? (quote path) = some path ∧
      (∀ literal, Interpreted literal ∧ unquote? literal = some path ↔ literal = quote path) ∧
      ∀ body, unquote? (rawLiteral body) = some (String.ofList body) ∧
        unquote? (quote (String.ofList body)) = unquote? (rawLiteral body) := by
  refine ⟨?_, unquote?_quote path, fun literal => interpreted_iff, fun body => ?_⟩
  · rw [← escape_eq_backslashed]
    rfl
  · rw [unquote?_quote, unquote?_rawLiteral]
    exact ⟨rfl, rfl⟩

/-- A double quote that stands bare is read too, but it is not written like that. -/
example : unquote? "\"a\"b\"" = some "a\"b" ∧ quote "a\"b" = "\"a\\\"b\"" := by decide

/-! ## Literals as tokens -/

theorem quotedRest_escape {path : List Char} (h : '\n' ∉ path) (rest : List Char) :
    quotedRest (escape path ++ '"' :: rest) = some ((escape path).length + 1) := by
  induction path with
  | nil =>
    rw [escape, List.nil_append, quotedRest]
    rfl
  | cons c path ih =>
    rw [List.mem_cons, not_or] at h
    rw [escape]
    split
    · rename_i hc
      rcases hc with rfl | rfl <;> simp [quotedRest, ih h.2]
    · rename_i hc
      rw [not_or] at hc
      rw [List.cons_append, quotedRest_plain hc.2 hc.1 (Ne.symm h.1), ih h.2]
      rfl

/-- A string between double quotes does not go on behind a line break. -/
theorem quotedRest_escape_of_mem {path : List Char} (h : '\n' ∈ path) (rest : List Char) :
    quotedRest (escape path ++ rest) = none := by
  induction path with
  | nil => simp at h
  | cons c path ih =>
    rw [escape]
    split
    · rename_i hc
      have hmem : '\n' ∈ path := by
        rcases List.mem_cons.1 h with rfl | hmem
        · exact absurd hc (by decide)
        · exact hmem
      rcases hc with rfl | rfl <;> simp [quotedRest, ih hmem]
    · rename_i hc
      rw [not_or] at hc
      by_cases hnl : c = '\n'
      · subst hnl
        rw [List.cons_append, quotedRest] <;> simp
      · have hmem : '\n' ∈ path := (List.mem_cons.1 h).resolve_left (Ne.symm hnl)
        rw [List.cons_append, quotedRest_plain hc.2 hc.1 hnl, ih hmem]
        rfl

/-- **The literal of a path is one token, unless the path has a line break.** Then there is none. -/
theorem stringLength_quote (path : String) (rest : List Char) :
    stringLength ((quote path).toList ++ rest) =
      if '\n' ∈ path.toList then none else some (quote path).toList.length := by
  rw [quote, String.toList_ofList, List.append_assoc, List.singleton_append, List.cons_append,
    stringLength]
  split
  · rename_i hmem
    rw [quotedRest_escape_of_mem hmem]
    rfl
  · rename_i hmem
    rw [quotedRest_escape hmem, Option.map_some]
    simp

/-- The literal of a path is a literal of the language exactly if the path has no line break. -/
theorem isLiteral_quote_iff {path : String} :
    IsLiteral (quote path).toList ↔ '\n' ∉ path.toList := by
  constructor
  · intro h hmem
    have hnone := stringLength_quote path []
    rw [h, if_pos hmem] at hnone
    simp at hnone
  · intro h rest
    rw [stringLength_quote, if_neg h]

theorem isLiteral_quote {path : String} (h : '\n' ∉ path.toList) :
    IsLiteral (quote path).toList := isLiteral_quote_iff.2 h

/-- A string ends at its first bare quote. -/
theorem exists_body_of_quotedRest {cs : List Char} {n : Nat} (h : quotedRest cs = some n) :
    ∃ body rest, cs = body ++ '"' :: rest ∧ n = body.length + 1 ∧ hasBareQuote body = false := by
  fun_induction quotedRest cs generalizing n with
  | case1 rest => exact ⟨[], rest, rfl, (Option.some.inj h).symm, rfl⟩
  | case2 c tail _ _ =>
    rename_i ih
    obtain ⟨k, hk, rfl⟩ := Option.map_eq_some_iff.1 h
    obtain ⟨body, rest, rfl, rfl, hbare⟩ := ih hk
    refine ⟨'\\' :: c :: body, rest, rfl, rfl, ?_⟩
    rw [hasBareQuote]
    exact hbare
  | case3 => simp at h
  | case4 => simp at h
  | case5 c tail hquote hslash hbad ih =>
    obtain ⟨k, hk, rfl⟩ := Option.map_eq_some_iff.1 h
    obtain ⟨body, rest, rfl, rfl, hbare⟩ := ih hk
    refine ⟨c :: body, rest, rfl, rfl, ?_⟩
    rw [hasBareQuote, hbare, Bool.or_false, beq_eq_false_iff_ne]
    · exact fun heq => hquote heq
    · rintro - - rfl
      simp at hbad
  | case6 => simp at h

/-- A literal of the language that begins with a double quote has each other one escaped. -/
theorem IsLiteral.interpreted {cs : List Char} (h : IsLiteral ('"' :: cs)) :
    Interpreted (String.ofList ('"' :: cs)) := by
  have hlength := h []
  rw [List.append_nil, stringLength, Option.map_eq_some_iff] at hlength
  obtain ⟨n, hn, hall⟩ := hlength
  obtain ⟨body, rest, rfl, rfl, hbare⟩ := exists_body_of_quotedRest hn
  -- The literal is all that is read, so nothing is left behind the closing quote.
  have hnil : rest = [] := by
    apply List.eq_nil_of_length_eq_zero
    simp only [List.length_cons, List.length_append] at hall
    omega
  exact ⟨body, hbare, by rw [hnil]; rfl⟩

/-- **Only between backquotes a path can have a line break.** -/
theorem IsLiteral.raw_of_newline {literal : List Char} (h : IsLiteral literal) {path : String}
    (hpath : unquote? (String.ofList literal) = some path) (hmem : '\n' ∈ path.toList) :
    literal.head? = some '`' := by
  obtain ⟨c, cs, rfl, rfl | rfl⟩ := h.head
  · have hquote := interpreted_iff.1 ⟨h.interpreted, hpath⟩
    rw [← String.toList_inj, String.toList_ofList] at hquote
    rw [hquote, isLiteral_quote_iff] at h
    exact absurd hmem h
  · rfl

end PinnedImports.Go
