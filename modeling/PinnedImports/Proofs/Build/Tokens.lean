import Mathlib.Data.List.TakeWhile
import PinnedImports.Build.Header

/-!
# The tokens of a condition

A text splits into tokens (`Token.Splits`) when blanks and tabs stand between them at will and each
tag goes on as far as tag characters do. The scan finds exactly these tokens
(`Token.scan_eq_some_iff`), so a text splits in one way at most.
-/

set_option autoImplicit false

namespace PinnedImports.Build

/-! ## Tags -/

theorem isTagChar_of_ascii {c : Char} (h : c.toNat < 128) :
    isTagChar c = (c.isAlphanum || c == '_' || c == '.') := by
  rw [isTagChar, Text.isAlphanumeric_of_ascii h]

/-- No character of a sign, and no blank or tab, is a tag character. -/
theorem isTagChar_eq_false {c : Char} (h : c ∈ [' ', '\t', '\n', '!', ',', '(', ')', '&', '|', '/']) :
    isTagChar c = false := by
  have hall : [' ', '\t', '\n', '!', ',', '(', ')', '&', '|', '/'].all (fun d =>
      decide (d.toNat < 128) && !(d.isAlphanum || d == '_' || d == '.')) = true := by decide
  have hc := List.all_eq_true.1 hall c h
  rw [Bool.and_eq_true, decide_eq_true_eq, Bool.not_eq_true'] at hc
  rw [isTagChar_of_ascii hc.1, hc.2]

theorem isTag_iff {cs : List Char} : isTag cs = true ↔ cs ≠ [] ∧ ∀ c ∈ cs, isTagChar c = true := by
  rw [isTag, Bool.and_eq_true, Bool.not_eq_true', List.isEmpty_eq_false_iff, List.all_eq_true]

namespace Token

/-! ## Splitting a text -/

/-- A token as it is written. -/
def text : Token → List Char
  | tag name => name.toList
  | not => ['!']
  | and => ['&', '&']
  | or => ['|', '|']
  | openParen => ['(']
  | closeParen => [')']

/-- Whether a token can stand in front of a text. A tag is not empty, and it does not end while tag
characters follow. -/
def Stands : Token → List Char → Prop
  | tag name, rest => isTag name.toList = true ∧ ∀ c ∈ rest.head?, isTagChar c = false
  | _, _ => True

/-- The text consists of the tokens, with any blanks and tabs between them. -/
inductive Splits : List Char → List Token → Prop
  | done : Splits [] []
  | blank {c : Char} {cs : List Char} {tokens : List Token} :
      c = ' ' ∨ c = '\t' → Splits cs tokens → Splits (c :: cs) tokens
  | token (token : Token) {rest : List Char} {tokens : List Token} :
      token.Stands rest → Splits rest tokens → Splits (token.text ++ rest) (token :: tokens)

/-! ## One token -/

theorem next?_tag {c : Char} (hc : isTagChar c = true) (cs : List Char) :
    next? (c :: cs) = some (.tag (String.ofList (c :: cs.takeWhile isTagChar)),
      cs.dropWhile isTagChar) := by
  unfold next?
  split
  case h_6 => rw [List.takeWhile_cons_of_pos hc, List.dropWhile_cons_of_pos hc]
  all_goals
    -- The first character would be a sign.
    rename_i heq
    rw [List.cons.injEq] at heq
    rw [heq.1, isTagChar_eq_false (by decide)] at hc
    exact absurd hc Bool.false_ne_true

/-- **A token is read where it stands.** -/
theorem next?_text {token : Token} {rest : List Char} (h : token.Stands rest) :
    next? (token.text ++ rest) = some (token, rest) := by
  cases token with
  | tag name =>
    obtain ⟨hname, hrest⟩ := h
    obtain ⟨hne, hall⟩ := isTag_iff.1 hname
    obtain ⟨c, cs, hchars⟩ := List.exists_cons_of_ne_nil hne
    rw [hchars] at hall
    have hcs : ∀ d ∈ cs, isTagChar d = true := fun d hd => hall d (List.mem_cons_of_mem _ hd)
    -- All of the name is taken, and nothing behind it.
    have htake : (cs ++ rest).takeWhile isTagChar = cs := by
      rw [List.takeWhile_append_of_pos hcs]
      cases rest with
      | nil => simp
      | cons d rest => simp [hrest d rfl]
    have hdrop : (cs ++ rest).dropWhile isTagChar = rest := by
      rw [List.dropWhile_append_of_pos hcs]
      cases rest with
      | nil => rfl
      | cons d rest => simp [hrest d rfl]
    rw [text, hchars, List.cons_append, next?_tag (hall c List.mem_cons_self), htake, hdrop,
      ← hchars, String.ofList_toList]
  | not => rfl
  | and => rfl
  | or => rfl
  | openParen => rfl
  | closeParen => rfl

/-- **What is read is a token that stands there.** -/
theorem stands_of_next? {token : Token} {cs rest : List Char} (h : next? cs = some (token, rest)) :
    cs = token.text ++ rest ∧ token.Stands rest := by
  unfold next? at h
  split at h
  case h_6 =>
    split at h
    · simp at h
    · rename_i name hne hname
      rw [Option.some.injEq, Prod.mk.injEq] at h
      obtain ⟨rfl, rfl⟩ := h
      have htag : isTag (String.ofList (cs.takeWhile isTagChar)).toList = true := by
        rw [String.toList_ofList, isTag_iff]
        exact ⟨hname, fun c hc => List.mem_takeWhile_imp hc⟩
      refine ⟨?_, htag, fun c hc => ?_⟩
      · rw [text, String.toList_ofList, List.takeWhile_append_dropWhile]
      · have hhead := List.head?_dropWhile_not isTagChar cs
        rw [Option.mem_def.1 hc] at hhead
        simpa using hhead
  all_goals
    rw [Option.some.injEq, Prod.mk.injEq] at h
    obtain ⟨rfl, rfl⟩ := h
    exact ⟨rfl, trivial⟩

/-- A token begins with a character that is no blank and no tab. -/
theorem exists_text {token : Token} {rest : List Char} (h : token.Stands rest) :
    ∃ c cs, token.text = c :: cs ∧ ¬ (c = ' ' ∨ c = '\t') := by
  cases token with
  | tag name =>
    obtain ⟨hne, hall⟩ := isTag_iff.1 h.1
    obtain ⟨c, cs, hchars⟩ := List.exists_cons_of_ne_nil hne
    refine ⟨c, cs, hchars, ?_⟩
    have hc := hall c (hchars ▸ List.mem_cons_self)
    rintro (rfl | rfl)
    all_goals
      rw [isTagChar_eq_false (by decide)] at hc
      exact Bool.false_ne_true hc
  | not => exact ⟨'!', [], rfl, by decide⟩
  | and => exact ⟨'&', ['&'], rfl, by decide⟩
  | or => exact ⟨'|', ['|'], rfl, by decide⟩
  | openParen => exact ⟨'(', [], rfl, by decide⟩
  | closeParen => exact ⟨')', [], rfl, by decide⟩

/-! ## All tokens -/

theorem splits_of_scanWithin {n : Nat} {cs : List Char} {tokens : List Token}
    (h : scanWithin n cs = some tokens) : Splits cs tokens := by
  induction n generalizing cs tokens with
  | zero =>
    cases cs with
    | nil =>
      rw [scanWithin, Option.some.injEq] at h
      exact h ▸ .done
    | cons c cs => simp [scanWithin] at h
  | succ n ih =>
    cases cs with
    | nil =>
      rw [scanWithin, Option.some.injEq] at h
      exact h ▸ .done
    | cons c cs =>
      rw [scanWithin] at h
      split at h
      · rename_i hblank
        exact .blank hblank (ih h)
      · cases hnext : next? (c :: cs) with
        | none => simp [hnext] at h
        | some found =>
          obtain ⟨token, rest⟩ := found
          rw [hnext] at h
          obtain ⟨later, hlater, rfl⟩ := Option.map_eq_some_iff.1 h
          obtain ⟨hchars, hstands⟩ := stands_of_next? hnext
          rw [hchars]
          exact .token token hstands (ih hlater)

/-- A bound that is at least the length of the text leaves no token out. -/
theorem Splits.scanWithin {cs : List Char} {tokens : List Token} (h : Splits cs tokens) :
    ∀ {n : Nat}, cs.length ≤ n → scanWithin n cs = some tokens := by
  induction h with
  | done => exact fun _ => by rw [Token.scanWithin]
  | @blank c cs tokens hc _ ih =>
    intro n hn
    obtain ⟨n, rfl⟩ := Nat.exists_eq_add_one_of_ne_zero (Nat.ne_zero_of_lt hn)
    rw [Token.scanWithin, if_pos hc]
    exact ih (Nat.le_of_succ_le_succ hn)
  | @token token rest tokens hstands _ ih =>
    intro n hn
    obtain ⟨c, cs, htext, hc⟩ := exists_text hstands
    have hnext := next?_text hstands
    rw [htext, List.cons_append] at hn hnext ⊢
    obtain ⟨n, rfl⟩ := Nat.exists_eq_add_one_of_ne_zero (Nat.ne_zero_of_lt hn)
    have hrest : rest.length ≤ n := by
      rw [List.length_cons, List.length_append] at hn
      omega
    rw [Token.scanWithin, if_neg hc, hnext]
    simp only [ih hrest, Option.map_some]

/-- **The scan finds the tokens that a text splits into.** -/
theorem scan_eq_some_iff {cs : List Char} {tokens : List Token} :
    scan cs = some tokens ↔ Splits cs tokens :=
  ⟨splits_of_scanWithin, fun h => h.scanWithin (Nat.le_refl _)⟩

/-! ## Texts that are put together -/

/-- The text splits into the tokens in front of every text into which no tag goes on. -/
def SplitsAhead (cs : List Char) (tokens : List Token) : Prop :=
  ∀ (rest : List Char) (later : List Token), (∀ c ∈ rest.head?, isTagChar c = false) →
    Splits rest later → Splits (cs ++ rest) (tokens ++ later)

theorem head?_cons_of {c : Char} (hc : isTagChar c = false) (cs : List Char) :
    ∀ d ∈ (c :: cs).head?, isTagChar d = false := by
  intro d hd
  rw [List.head?_cons, Option.mem_some_iff] at hd
  exact hd ▸ hc

namespace SplitsAhead

variable {cs front back : List Char} {tokens before behind : List Token}

theorem splits (h : SplitsAhead cs tokens) : Splits cs tokens := by
  have hall := h [] [] (by simp) .done
  rwa [List.append_nil, List.append_nil] at hall

theorem tag {name : String} (h : isTag name.toList = true) :
    SplitsAhead name.toList [.tag name] := by
  intro rest later hends hrest
  exact .token (.tag name) ⟨h, hends⟩ hrest

theorem not (h : SplitsAhead cs tokens) : SplitsAhead ('!' :: cs) (.not :: tokens) := by
  intro rest later hends hrest
  exact .token .not trivial (h rest later hends hrest)

theorem parens (h : SplitsAhead cs tokens) :
    SplitsAhead ('(' :: (cs ++ [')'])) (.openParen :: (tokens ++ [.closeParen])) := by
  intro rest later hends hrest
  simp only [List.cons_append, List.append_assoc, List.nil_append]
  apply Splits.token .openParen trivial
  apply h
  · exact head?_cons_of (isTagChar_eq_false (by decide)) _
  · exact .token .closeParen trivial hrest

/-- An operator stands between blanks, so the text in front of it may end in a tag. -/
theorem operator (operator : Token) (hstands : ∀ rest, operator.Stands rest)
    (hfront : SplitsAhead front before) (hback : SplitsAhead back behind) :
    SplitsAhead (front ++ ' ' :: (operator.text ++ ' ' :: back))
      (before ++ operator :: behind) := by
  intro rest later hends hrest
  simp only [List.cons_append, List.append_assoc]
  apply hfront
  · exact head?_cons_of (isTagChar_eq_false (by decide)) _
  · apply Splits.blank (.inl rfl)
    apply Splits.token operator (hstands _)
    apply Splits.blank (.inl rfl)
    exact hback rest later hends hrest

end SplitsAhead

end Token

end PinnedImports.Build
