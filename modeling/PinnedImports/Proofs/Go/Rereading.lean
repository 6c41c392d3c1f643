import PinnedImports.Proofs.Go.Items
import PinnedImports.Proofs.Go.Scan
import PinnedImports.Proofs.Text.Splice

/-!
# Items that are read again

A package clause and an import declaration are read the same whatever stands behind them
(`read_item_package`, `read_item_declText`), so what follows them in a file can be exchanged. Items
of code are read with a look at what follows. Their trees begin in front of what is left behind them
(`package_or_code`).
-/

set_option autoImplicit false

namespace PinnedImports.Go

open Text

theorem IsWord.word? {word rest : List Char} (h : IsWord word) (hrest : EndsWord rest) :
    Go.word? (word ++ rest) = some (String.ofList word) := by
  rw [Go.word?, wordLength_append h hrest, Option.map_some, List.take_left]

theorem IsWord.append_ne_nil {word : List Char} (h : IsWord word) (before : List Char) :
    before ++ word ≠ [] := by
  obtain ⟨c, cs, rfl, -⟩ := h
  simp

theorem EndsWord.of_head? {text text' : List Char} (h : EndsWord text)
    (hhead : text'.head? = text.head?) : EndsWord text' := by
  intro c hc
  rw [hhead] at hc
  exact h c hc

theorem DeclText.word {after : Nat} {item : Item} {cs : List Char} (h : DeclText after item cs)
    (rest : List Char) : word? (cs ++ rest) = some "import" := by
  have himport {text : List Char} (htext : EndsWord text) :
      word? (importWord ++ text) = some "import" := by
    rw [isWord_importWord.word? htext]
    rfl
  cases h with
  | @single gap s hgap hends =>
    obtain ⟨c, cs, hchars, -⟩ := s.chars_start
    rw [List.append_assoc]
    exact himport (hends.append (by simp [hchars]) rest)
  | block hgap =>
    simpa using himport (endsWord_paren hgap _)

theorem DeclText.head? {after : Nat} {item : Item} {cs : List Char} (h : DeclText after item cs)
    (rest : List Char) : (cs ++ rest).head? = some 'i' := by
  cases h <;> rfl

/-- The characters of the keyword. -/
def packageWord : List Char := "package".toList

/-- A package clause, with the blanks before it. -/
inductive PackageText : String → List Char → Prop
  | clause {blanks gap word : List Char} :
      Blanks blanks → Blanks gap → IsWord word → EndsWord (gap ++ word) →
        PackageText (String.ofList word) (blanks ++ (packageWord ++ (gap ++ word)))

theorem isWord_packageWord : IsWord packageWord := by
  refine ⟨'p', "ackage".toList, by decide, by decide, ?_⟩
  have hall : "ackage".toList.all Text.isIdentifierContinue = true := by decide
  exact List.all_eq_true.1 hall

theorem PackageText.scan {name : String} {cs : List Char} (h : PackageText name cs) :
    Go.scan .code cs = .code := by
  cases h with
  | clause hblanks hgap hword _ =>
    rw [scan_code_append (scan_blanks hblanks), scan_code_append (scan_plain isWord_packageWord.isPlain),
      scan_code_append (scan_blanks hgap)]
    exact scan_plain hword.isPlain

namespace Parser

open Grammar

/-! ## Package clauses -/

theorem read_packageClause_eq (text : List Char) :
    packageClause.read text =
      ((keyword "package").read text).bind fun word =>
        ((lexeme wordLength).read word.2).map fun r => (.package (String.ofList r.1), r.2) := by
  rw [packageClause, read_bind]
  congr 1
  funext word
  rw [read_bind]
  cases (lexeme wordLength).read word.2 <;> rfl

/-- A package clause is read wherever it stands. -/
theorem read_packageClause {name : String} {cs rest : List Char} (h : PackageText name cs)
    (hrest : EndsWord rest) : packageClause.read (cs ++ rest) = some (.package name, rest) := by
  cases h with
  | @clause blanks gap word hblanks hgap hword hends =>
    have hne := hword.append_ne_nil gap
    have hkeyword : (keyword "package").read (blanks ++ (packageWord ++ (gap ++ word ++ rest))) =
        some ((), gap ++ word ++ rest) :=
      read_keyword_word isWord_packageWord hblanks (hends.append hne rest)
    have hlexeme : (lexeme wordLength).read (gap ++ word ++ rest) = some (word, rest) := by
      rw [read_lexeme, List.append_assoc, hword.afterGap hgap, wordLength_append hword hrest,
        Option.map_some, List.take_left, List.drop_left]
    rw [read_packageClause_eq, List.append_assoc, List.append_assoc, hkeyword, Option.bind_some,
      hlexeme]
    rfl

/-- What is read as a package clause is one. -/
theorem exists_packageText {text rest : List Char} {found : Item}
    (h : packageClause.read text = some (found, rest)) :
    ∃ name cs, found = .package name ∧ text = cs ++ rest ∧ PackageText name cs ∧
      EndsWord rest := by
  rw [read_packageClause_eq, Option.bind_eq_some_iff] at h
  obtain ⟨⟨⟨⟩, text'⟩, hkeyword, h⟩ := h
  obtain ⟨blanks, hblanks, rfl, -, hends⟩ := exists_keyword hkeyword
  rw [Option.map_eq_some_iff] at h
  obtain ⟨⟨word, last⟩, hlexeme, heq⟩ := h
  rw [Prod.mk.injEq] at heq
  obtain ⟨rfl, rfl⟩ := heq
  rw [read_lexeme, Option.map_eq_some_iff] at hlexeme
  obtain ⟨n, hn, heq⟩ := hlexeme
  rw [Prod.mk.injEq] at heq
  obtain ⟨rfl, rfl⟩ := heq
  obtain ⟨word, last, hafter, rfl, hword, hends'⟩ := isWord_of_wordLength hn
  have hne : afterGap false text' ≠ [] := by
    intro hnil
    rw [hnil] at hn
    simp [wordLength] at hn
  obtain ⟨gap, hgap, htext⟩ := exists_blanks hne
  rw [hafter] at htext ⊢
  rw [List.take_left, List.drop_left]
  rw [htext, ← List.append_assoc] at hends
  rw [htext]
  refine ⟨_, _, rfl, ?_, .clause hblanks hgap hword (EndsWord.of_append ?_ hends), hends'⟩
  · simp only [List.append_assoc]
    rfl
  · exact hword.append_ne_nil gap

end Parser

namespace Grammar

open PinnedImports.Go.Parser

/-! ## Items -/

theorem read_itemEnd_closing {closing : List Char} (h : Closing closing) (rest : List Char) :
    itemEnd.read (closing ++ rest) = some ((), rest) := by
  rw [itemEnd, read_orElse, read_terminator_append h]
  rfl

theorem read_item_package_eq {rules : Rules} {text : List Char}
    (hword : word? (afterGap false text) = some "package") :
    (item rules).read text =
      (packageClause.read text).bind fun r => (itemEnd.read r.2).map fun e => (r.1, e.2) := by
  rw [item, read_bind, read_ahead, Option.bind_some]
  simp only [hword]
  rw [read_seqLeft]
  rfl

/-- **A package clause is read as an item whatever follows its end.** -/
theorem read_item_package (rules : Rules) {name : String} {cs after rest : List Char}
    (h : PackageText name cs) (hafter : EndsWord after) (hend : itemEnd.read after = some ((), rest)) :
    (item rules).read (cs ++ after) = some (.package name, rest) := by
  have hword : word? (afterGap false (cs ++ after)) = some "package" := by
    cases h with
    | @clause blanks gap word hblanks hgap hword hends =>
      have hne := hword.append_ne_nil gap
      rw [List.append_assoc, List.append_assoc, isWord_packageWord.afterGap hblanks,
        isWord_packageWord.word? (hends.append hne after)]
      rfl
  rw [read_item_package_eq hword, read_packageClause h hafter, Option.bind_some, hend]
  rfl

/-- **An import declaration is read as an item whatever follows its end.** -/
theorem read_item_declText (rules : Rules) {found : Item} {blanks cs after rest : List Char}
    (hblanks : Blanks blanks) (h : DeclText (byteLength after) found cs)
    (hend : itemEnd.read after = some ((), rest)) :
    (item rules).read (blanks ++ (cs ++ after)) = some (found, rest) := by
  have hread := read_importDeclaration hblanks h
  have hword : word? (afterGap false (blanks ++ (cs ++ after))) = some "import" := by
    rw [h.afterGap hblanks, h.word]
  rw [read_item_import hword, hread, Option.bind_some, hend]
  rfl

/-- An item that is no import declaration is a package clause with its end, or code. -/
theorem package_or_code {text rest : List Char} {found : Item}
    (h : (placedItem rules).read text = some ((found, none), rest)) :
    (∃ name cs after, found = .package name ∧ text = cs ++ after ∧ PackageText name cs ∧
      EndsWord after ∧ itemEnd.read after = some ((), rest)) ∨ IsCode found rest := by
  obtain ⟨himport, hread⟩ := not_import_of_item h
  by_cases hpackage : word? (afterGap false text) = some "package"
  · left
    rw [read_item_package_eq hpackage, Option.bind_eq_some_iff] at hread
    obtain ⟨⟨found', after⟩, hclause, hread⟩ := hread
    rw [Option.map_eq_some_iff] at hread
    obtain ⟨⟨⟨⟩, last⟩, hend, heq⟩ := hread
    rw [Prod.mk.injEq] at heq
    obtain ⟨rfl, rfl⟩ := heq
    obtain ⟨name, cs, hfound, htext, hcs, hafter⟩ := exists_packageText hclause
    exact ⟨name, cs, after, hfound, htext, hcs, hafter, hend⟩
  · exact .inr (code_of_item himport hpackage hread)

/-- What is read with places is read without. -/
theorem repeats_item {rules : Rules} {text last : List Char} {found : List (Item × Option Span)}
    (h : Repeats (placedItem rules) text found last) :
    Repeats (item rules) text (found.map (·.1)) last := by
  induction h with
  | stop hread =>
    apply Repeats.stop
    rw [read_item, hread]
    rfl
  | next hread _ ih =>
    refine Repeats.next ?_ ih
    rw [read_item, hread]
    rfl

end Grammar

theorem Tree.start_turned (size : Nat) (tree : Tree) : (tree.turned size).start = size - tree.start := by
  cases tree
  rfl

end PinnedImports.Go
