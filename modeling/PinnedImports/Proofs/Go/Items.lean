import PinnedImports.Proofs.Go.ImportDeclarations

/-!
# Items of a source file

The items of a text are read one after another, each from what is left behind the one before. For
the import declarations among them `importRanges` gives the places in the text.
-/

set_option autoImplicit false

namespace PinnedImports.Go

open Text

namespace Parser

variable {α β : Type}

/-! ## Parsers that pass characters -/

theorem Advances.bind_right {p : Parser α} {f : α → Parser β} (hf : ∀ a, (f a).Advances) :
    (p >>= f).Advances := by
  intro text rest b h
  rw [read_bind, Option.bind_eq_some_iff] at h
  obtain ⟨⟨a, mid⟩, ha, hb⟩ := h
  have hrest := hf a hb
  have hmid := (suffix_of_read ha).length_le
  simp only at hrest
  omega

theorem Advances.map {p : Parser α} (hp : p.Advances) (f : α → β) : (f <$> p).Advances := by
  intro text rest b h
  rw [read_map, Option.map_eq_some_iff] at h
  obtain ⟨⟨a, mid⟩, ha, heq⟩ := h
  rw [Prod.mk.injEq] at heq
  rw [← heq.2]
  exact hp ha

theorem Advances.seqLeft {p : Parser α} (hp : p.Advances) (q : Parser β) : (p <* q).Advances := by
  intro text rest a h
  rw [read_seqLeft, Option.bind_eq_some_iff] at h
  obtain ⟨⟨a', mid⟩, ha, hq⟩ := h
  rw [Option.map_eq_some_iff] at hq
  obtain ⟨⟨b, last⟩, hb, heq⟩ := hq
  simp only [Prod.mk.injEq] at heq
  obtain ⟨-, rfl⟩ := heq
  have hmid := hp ha
  have hlast := (suffix_of_read hb).length_le
  simp only at hlast
  omega

theorem Advances.seqLeft_right (p : Parser α) {q : Parser β} (hq : q.Advances) :
    (p <* q).Advances := by
  intro text rest a h
  rw [read_seqLeft, Option.bind_eq_some_iff] at h
  obtain ⟨⟨a', mid⟩, ha, h⟩ := h
  rw [Option.map_eq_some_iff] at h
  obtain ⟨⟨b, last⟩, hb, heq⟩ := h
  simp only [Prod.mk.injEq] at heq
  obtain ⟨-, rfl⟩ := heq
  have hlast := hq hb
  have hmid := (suffix_of_read ha).length_le
  simp only at hlast
  omega

theorem Advances.orElse {p q : Parser α} (hp : p.Advances) (hq : q.Advances) :
    (p <|> q).Advances := by
  intro text rest a h
  rw [read_orElse, Option.or_eq_some_iff] at h
  rcases h with h | ⟨-, h⟩
  · exact hp h
  · exact hq h

theorem advances_keyword (word : String) : (keyword word).Advances := by
  intro text rest a h
  rw [read_keyword, Option.bind_eq_some_iff] at h
  obtain ⟨n, hn, h⟩ := h
  obtain ⟨name, tail, hafter, rfl, hword, -⟩ := isWord_of_wordLength hn
  have hlen : (afterGap false text).length ≤ text.length := (List.drop_suffix _ _).length_le
  split at h
  · rw [Option.some.injEq, Prod.mk.injEq] at h
    obtain ⟨-, rfl⟩ := h
    obtain ⟨c, cs, rfl, -⟩ := hword
    rw [hafter] at hlen ⊢
    rw [List.drop_left]
    simp only [List.length_append, List.length_cons] at hlen
    omega
  · simp at h

theorem advances_noded (kind : Kind) {body : Parser (List Tree)} (h : body.Advances) :
    (noded kind body).Advances := by
  rw [noded, spanned]
  exact Advances.bind_right fun _ => Advances.bind_right fun _ => (h.map _).bind _

/-! ## Where trees start -/

/-- Whatever the parser reads satisfies `P`, together with what is left behind it. -/
def Yields (p : Parser α) (P : α → List Char → Prop) : Prop :=
  ∀ ⦃text rest : List Char⦄ ⦃a : α⦄, p.read text = some (a, rest) → P a rest

theorem Yields.orElse {P : α → List Char → Prop} {p q : Parser α} (hp : p.Yields P)
    (hq : q.Yields P) : (p <|> q).Yields P := by
  intro text rest a h
  rw [read_orElse, Option.or_eq_some_iff] at h
  rcases h with h | ⟨-, h⟩
  · exact hp h
  · exact hq h

theorem Yields.map {P : β → List Char → Prop} {p : Parser α} (f : α → β)
    (hp : p.Yields fun a rest => P (f a) rest) : (f <$> p).Yields P := by
  intro text rest b h
  rw [read_map, Option.map_eq_some_iff] at h
  obtain ⟨⟨a, mid⟩, ha, heq⟩ := h
  simp only [Prod.mk.injEq] at heq
  obtain ⟨rfl, rfl⟩ := heq
  exact hp ha

theorem Yields.seqLeft {P : α → List Char → Prop}
    (hmono : ∀ a {text rest : List Char}, rest <:+ text → P a text → P a rest) {p : Parser α}
    (hp : p.Yields P) (q : Parser β) : (p <* q).Yields P := by
  intro text rest a h
  rw [read_seqLeft, Option.bind_eq_some_iff] at h
  obtain ⟨⟨a', mid⟩, ha, h⟩ := h
  rw [Option.map_eq_some_iff] at h
  obtain ⟨⟨b, last⟩, hb, heq⟩ := h
  simp only [Prod.mk.injEq] at heq
  obtain ⟨rfl, rfl⟩ := heq
  exact hmono _ (suffix_of_read hb) (hp ha)

theorem byteLength_le_of_suffix {text rest : List Char} (h : rest <:+ text) :
    byteLength rest ≤ byteLength text := by
  obtain ⟨passed, rfl⟩ := h
  rw [byteLength_append]
  omega

/-- A tree whose text starts before what is left. -/
def StartsBefore (tree : Tree) (rest : List Char) : Prop := byteLength rest ≤ tree.start

theorem yields_noded (kind : Kind) (body : Parser (List Tree)) :
    (noded kind body).Yields StartsBefore := by
  intro text rest tree h
  rw [noded, spanned, read_bind, read_gap, Option.bind_some, read_bind, read_left,
    Option.bind_some, read_bind, Option.bind_eq_some_iff] at h
  obtain ⟨⟨⟨kind', children⟩, last⟩, hbody, h⟩ := h
  rw [read_bind, read_left, Option.bind_some, read_pure, Option.some.injEq, Prod.mk.injEq] at h
  obtain ⟨rfl, rfl⟩ := h
  exact byteLength_le_of_suffix (suffix_of_read hbody)

end Parser

namespace Grammar

open PinnedImports.Go.Parser

theorem yields_keywordStatement {rules : Rules} {inCase : Bool} {word : String}
    {p : Parser Tree} (h : keywordStatement rules inCase word = some p) :
    p.Yields StartsBefore := by
  unfold keywordStatement at h
  split at h
  all_goals first
    | exact (Option.some.inj h) ▸ yields_noded _ _
    | simp at h

theorem yields_statement {rules : Rules} (hblock : (rules .block).Yields StartsBefore)
    (inCase : Bool) : (statement rules inCase).Yields StartsBefore := by
  intro text rest tree h
  rw [statement, read_bind, read_ahead, Option.bind_some] at h
  split at h
  · exact hblock h
  · exact yields_noded _ _ h
  · split at h
    · rename_i rule hrule
      obtain ⟨word, -, hword⟩ := Option.bind_eq_some_iff.1 hrule
      exact yields_keywordStatement hword h
    · exact (yields_noded _ _).orElse (yields_noded _ _) h

theorem read_rulesWithin_zero (goal : Goal) (text : List Char) :
    (rulesWithin 0 goal).read text = none := by
  rw [rulesWithin]
  rfl

theorem read_rulesWithin_succ (n : Nat) (goal : Goal) (text : List Char) :
    (rulesWithin (n + 1) goal).read text =
      (step ((rulesWithin n).below goal (.start text)) goal).read text := by
  rw [rulesWithin]
  unfold Parser.read
  rfl

theorem read_rules (goal : Goal) (text : List Char) :
    (rules goal).read text = (rulesWithin (goal.weight (.start text) + 1) goal).read text := by
  unfold rules Parser.read
  rfl

theorem read_below (rules : Rules) (goal part : Goal) (c : Cursor) (text : List Char) :
    (rules.below goal c part).read text =
      if part.weight (.start text) < goal.weight c then (rules part).read text else none := by
  rw [Parser.read, Rules.below]
  split <;> rfl

theorem yields_block (n : Nat) : (rulesWithin n .block).Yields StartsBefore := by
  intro text rest tree h
  cases n with
  | zero =>
    rw [read_rulesWithin_zero] at h
    simp at h
  | succ n =>
    rw [read_rulesWithin_succ, step, block] at h
    exact yields_noded _ _ h

theorem yields_rules_statement (inCase : Bool) :
    (rules (.statement inCase)).Yields StartsBefore := by
  intro text rest tree h
  rw [read_rules, read_rulesWithin_succ, step] at h
  refine yields_statement ?_ inCase h
  intro text' rest' tree' h'
  rw [read_below] at h'
  split at h'
  · exact yields_block _ h'
  · simp at h'

/-- An item of code that starts before what is left. -/
def IsCode (found : Item) (rest : List Char) : Prop :=
  ∃ tree, found = .code tree ∧ StartsBefore tree rest

theorem IsCode.mono (found : Item) {text rest : List Char} (h : rest <:+ text)
    (hfound : IsCode found text) : IsCode found rest := by
  obtain ⟨tree, htree, hstart⟩ := hfound
  exact ⟨tree, htree, (byteLength_le_of_suffix h).trans hstart⟩

theorem yields_code {p : Parser Tree} (h : p.Yields StartsBefore) :
    (Item.code <$> p).Yields IsCode :=
  Yields.map _ fun _ _ tree htree => ⟨tree, rfl, h htree⟩

/-- An item whose first word is neither that of an import declaration nor that of a package clause
is code. -/
theorem code_of_item {text rest : List Char} {found : Item}
    (himport : word? (afterGap false text) ≠ some "import")
    (hpackage : word? (afterGap false text) ≠ some "package")
    (h : (item rules).read text = some (found, rest)) : IsCode found rest := by
  rw [item, read_bind, read_ahead, Option.bind_some] at h
  have hstatement := yields_code (yields_rules_statement false)
  have hmono := IsCode.mono
  simp only at h
  split at h
  · rename_i hword
    exact absurd hword hpackage
  · rename_i hword
    exact absurd hword himport
  · refine Yields.orElse ?_ (Yields.orElse ?_ ?_) h
    · exact (yields_code (yields_noded _ _)).seqLeft (fun a _ _ => hmono a) _
    · exact (yields_code (yields_noded _ _)).seqLeft (fun a _ _ => hmono a) _
    · exact hstatement.seqLeft (fun a _ _ => hmono a) _
  · exact hstatement.seqLeft (fun a _ _ => hmono a) _ h

theorem yields_packageClause : packageClause.Yields fun found _ => ∃ name, found = .package name := by
  intro text rest found h
  rw [packageClause, read_bind, Option.bind_eq_some_iff] at h
  obtain ⟨⟨⟨⟩, mid⟩, -, h⟩ := h
  rw [read_bind, Option.bind_eq_some_iff] at h
  obtain ⟨⟨name, last⟩, -, h⟩ := h
  rw [read_pure, Option.some.injEq, Prod.mk.injEq] at h
  exact ⟨_, h.1.symm⟩

/-- An item whose first word is not that of an import declaration is none. -/
theorem noImport_of_item {text rest : List Char} {found : Item}
    (hword : word? (afterGap false text) ≠ some "import")
    (h : (item rules).read text = some (found, rest)) :
    (∃ name, found = .package name) ∨ IsCode found rest := by
  by_cases hpackage : word? (afterGap false text) = some "package"
  · rw [item, read_bind, read_ahead, Option.bind_some] at h
    simp only [hpackage] at h
    exact .inl (yields_packageClause.seqLeft (fun _ _ _ _ hname => hname) _ h)
  · exact .inr (code_of_item hword hpackage h)

theorem advances_item (rules : Rules) : (item rules).Advances := by
  have hstatement : (Item.code <$> rules (.statement false) <* terminator).Advances :=
    Advances.seqLeft_right _ advances_terminator
  rw [item]
  refine Advances.bind_right fun cs => ?_
  simp only
  split
  · exact ((advances_keyword _).bind _).seqLeft _
  · exact ((advances_keyword _).bind _).seqLeft _
  · refine Advances.orElse ?_ (Advances.orElse ?_ hstatement)
    · exact ((advances_noded _ ((advances_keyword _).bind _)).map _).seqLeft _
    · exact ((advances_noded _ ((advances_keyword _).bind _)).map _).seqLeft _
  · exact hstatement

/-! ## Import declarations among the items -/

/-- The end of an item that may be the last one. -/
def itemEnd : Parser Unit := terminator <|> atEnd

/-- An item, with the places of its ends where it is an import declaration. -/
def placedItem (rules : Rules) : Parser (Item × Option Span) := do
  let cs ← ahead false
  if word? cs = some "import" then
    let _ ← gap false
    let start ← left
    let declared ← importDeclaration
    let stop ← left
    itemEnd
    return (declared, some ⟨start, stop⟩)
  else return (← item rules, none)

/-- The items of a text, with the places of the import declarations. -/
def placedItems : Parser (List (Item × Option Span)) := do
  let _ ← Parser.optional (pass (Measure.exactly ['\uFEFF']))
  let found ← many (placedItem rules)
  atEnd
  return found

theorem read_importDeclaration_afterGap {text : List Char} (h : afterGap false text ≠ []) :
    importDeclaration.read (afterGap false text) = importDeclaration.read text := by
  rw [read_importDeclaration_eq, read_importDeclaration_eq, read_keyword, read_keyword,
    afterGap_afterGap h]

theorem afterGap_ne_nil_of_word {text : List Char} {word : String}
    (h : word? (afterGap false text) = some word) : afterGap false text ≠ [] := by
  intro hnil
  rw [hnil] at h
  simp [word?, wordLength] at h

theorem read_item_import {rules : Rules} {text : List Char}
    (hword : word? (afterGap false text) = some "import") :
    (item rules).read text =
      (importDeclaration.read text).bind fun r => (itemEnd.read r.2).map fun e => (r.1, e.2) := by
  rw [item, read_bind, read_ahead, Option.bind_some]
  simp only [hword]
  rw [read_seqLeft]
  rfl

theorem read_placedItem_import {rules : Rules} {text : List Char}
    (hword : word? (afterGap false text) = some "import") :
    (placedItem rules).read text =
      (importDeclaration.read text).bind fun r => (itemEnd.read r.2).map fun e =>
        ((r.1, some ⟨byteLength (afterGap false text), byteLength r.2⟩), e.2) := by
  rw [placedItem, read_bind, read_ahead, Option.bind_some, if_pos hword, read_bind, read_gap,
    Option.bind_some, read_bind, read_left, Option.bind_some, read_bind,
    read_importDeclaration_afterGap (afterGap_ne_nil_of_word hword)]
  congr 1
  funext r
  rw [read_bind, read_left, Option.bind_some, read_bind]
  cases itemEnd.read r.2 <;> rfl

theorem read_placedItem_other {rules : Rules} {text : List Char}
    (hword : word? (afterGap false text) ≠ some "import") :
    (placedItem rules).read text =
      ((item rules).read text).map fun r => ((r.1, none), r.2) := by
  rw [placedItem, read_bind, read_ahead, Option.bind_some, if_neg hword, read_bind]
  cases (item rules).read text <;> rfl

/-- What an item is read as does not depend on whether its place is asked for. -/
theorem read_item (rules : Rules) (text : List Char) :
    (item rules).read text = ((placedItem rules).read text).map fun r => (r.1.1, r.2) := by
  by_cases hword : word? (afterGap false text) = some "import"
  · rw [read_item_import hword, read_placedItem_import hword]
    cases importDeclaration.read text with
    | none => rfl
    | some r =>
      simp only [Option.bind_some, Option.map_map]
      rfl
  · rw [read_placedItem_other hword, Option.map_map]
    cases (item rules).read text <;> rfl

theorem advances_placedItem (rules : Rules) : (placedItem rules).Advances := by
  intro text rest r h
  have hread : (item rules).read text = some (r.1, rest) := by
    rw [read_item, h]
    rfl
  exact advances_item rules hread

theorem exists_blanks_of_itemEnd {text rest : List Char} (h : itemEnd.read text = some ((), rest)) :
    (∃ closing, Closing closing ∧ text = closing ++ rest) ∨
      (rest = text ∧ terminator.read text = none ∧ afterGap false text = []) := by
  rw [itemEnd, read_orElse, Option.or_eq_some_iff] at h
  rcases h with h | ⟨hnone, h⟩
  · exact .inl (closing_of_read h)
  · rw [atEnd, read_bind, read_ahead, Option.bind_some, read_require] at h
    split at h
    · rename_i hempty
      rw [Option.some.injEq, Prod.mk.injEq] at h
      exact .inr ⟨h.2.symm, hnone, List.isEmpty_iff.1 hempty⟩
    · simp at h

/-- An item with a place is an import declaration with its end. -/
theorem exists_declText_of_item {rules : Rules} {text rest : List Char} {found : Item}
    {span : Span} (h : (placedItem rules).read text = some ((found, some span), rest)) :
    ∃ blanks cs after, Blanks blanks ∧ text = blanks ++ (cs ++ after) ∧
      DeclText (byteLength after) found cs ∧
      span = ⟨byteLength (cs ++ after), byteLength after⟩ ∧ itemEnd.read after = some ((), rest) := by
  by_cases hword : word? (afterGap false text) = some "import"
  · rw [read_placedItem_import hword, Option.bind_eq_some_iff] at h
    obtain ⟨⟨item, after⟩, hread, h⟩ := h
    rw [Option.map_eq_some_iff] at h
    obtain ⟨⟨⟨⟩, last⟩, hend, heq⟩ := h
    simp only [Prod.mk.injEq, Option.some.injEq] at heq
    obtain ⟨⟨rfl, rfl⟩, rfl⟩ := heq
    obtain ⟨blanks, cs, hblanks, rfl, hdecl⟩ := exists_declText hread
    refine ⟨blanks, cs, after, hblanks, rfl, hdecl, ?_, hend⟩
    rw [hdecl.afterGap hblanks]
  · rw [read_placedItem_other hword, Option.map_eq_some_iff] at h
    obtain ⟨r, -, heq⟩ := h
    simp at heq

/-- An item without a place is no import declaration. -/
theorem not_import_of_item {rules : Rules} {text rest : List Char} {found : Item}
    (h : (placedItem rules).read text = some ((found, none), rest)) :
    word? (afterGap false text) ≠ some "import" ∧ (item rules).read text = some (found, rest) := by
  by_cases hword : word? (afterGap false text) = some "import"
  · rw [read_placedItem_import hword, Option.bind_eq_some_iff] at h
    obtain ⟨r, -, h⟩ := h
    rw [Option.map_eq_some_iff] at h
    obtain ⟨e, -, heq⟩ := h
    simp at heq
  · refine ⟨hword, ?_⟩
    rw [read_item, h]
    rfl

end Grammar

/-- The places of the import declarations of a text. -/
def importRanges (text : List Char) : List Span :=
  (((Grammar.placedItems.run? text).getD []).filterMap (·.2)).map
    (Span.turned (byteLength text))

namespace Grammar

open PinnedImports.Go.Parser

/-! ## Whole files -/

/-- Items that are read one after another are also read with their places. -/
theorem exists_placed {rules : Rules} {text last : List Char} {found : List Item}
    (h : Repeats (item rules) text found last) :
    ∃ placed, Repeats (placedItem rules) text placed last ∧ placed.map (·.1) = found := by
  induction h with
  | stop hread =>
    rw [read_item, Option.map_eq_none_iff] at hread
    exact ⟨[], .stop hread, rfl⟩
  | next hread _ ih =>
    obtain ⟨placed, hplaced, hmap⟩ := ih
    rw [read_item, Option.map_eq_some_iff] at hread
    obtain ⟨⟨r, mid⟩, hr, heq⟩ := hread
    simp only [Prod.mk.injEq] at heq
    obtain ⟨rfl, rfl⟩ := heq
    exact ⟨r :: placed, .next hr hplaced, by rw [List.map_cons, hmap]⟩

/-- The byte order mark at the front of a text. -/
def mark : List Char := ['\uFEFF']

/-- What is left of a text behind a byte order mark at its front. -/
def behindMark (text : List Char) : List Char := if mark.isPrefixOf text then text.drop 1 else text

theorem exists_append_behindMark (text : List Char) :
    ∃ passed, text = passed ++ behindMark text := by
  rw [behindMark]
  split
  · exact ⟨text.take 1, (List.take_append_drop 1 text).symm⟩
  · exact ⟨[], rfl⟩

theorem read_mark (text : List Char) :
    ∃ found, (Parser.optional (pass (Measure.exactly ['\uFEFF']))).read text =
      some (found, behindMark text) := by
  rw [read_optional, read_pass, Measure.exactly]
  by_cases hmark : mark.isPrefixOf text
  · refine ⟨some (text.take 1), ?_⟩
    rw [behindMark, if_pos hmark]
    have hprefix : ['\uFEFF'].isPrefixOf text = true := hmark
    rw [if_pos hprefix]
    rfl
  · refine ⟨none, ?_⟩
    rw [behindMark, if_neg hmark]
    have hprefix : ¬['\uFEFF'].isPrefixOf text = true := hmark
    rw [if_neg hprefix]
    rfl

theorem read_atEnd (text : List Char) :
    atEnd.read text = if (afterGap false text).isEmpty then some ((), text) else none := by
  rw [atEnd, read_bind, read_ahead, Option.bind_some, read_require]

/-- The items of a file are read one after another, up to blanks that end it. -/
theorem run?_items {text : List Char} {found : List Item} :
    items.run? text = some found ↔
      ∃ last, Repeats (item rules) (behindMark text) found last ∧ afterGap false last = [] := by
  obtain ⟨mark, hmark⟩ := read_mark text
  have hread : items.read text = ((many (item rules)).read (behindMark text)).bind fun r =>
      if (afterGap false r.2).isEmpty then some r else none := by
    rw [items, read_bind, hmark, Option.bind_some, read_bind]
    congr 1
    funext r
    rw [read_bind, read_atEnd]
    split <;> rfl
  rw [run?_eq, hread, Option.map_eq_some_iff]
  constructor
  · rintro ⟨⟨found', last⟩, h, rfl⟩
    rw [Option.bind_eq_some_iff] at h
    obtain ⟨r, hr, hend⟩ := h
    split at hend
    · rename_i hempty
      rw [Option.some.injEq] at hend
      subst hend
      exact ⟨last, (read_many_iff (advances_item rules)).1 hr, List.isEmpty_iff.1 hempty⟩
    · simp at hend
  · rintro ⟨last, hrepeats, hempty⟩
    refine ⟨(found, last), ?_, rfl⟩
    rw [(read_many_iff (advances_item rules)).2 hrepeats, Option.bind_some, hempty]
    rfl

theorem run?_placedItems {text last : List Char} {placed : List (Item × Option Span)}
    (h : Repeats (placedItem rules) (behindMark text) placed last)
    (hempty : afterGap false last = []) : placedItems.run? text = some placed := by
  obtain ⟨mark, hmark⟩ := read_mark text
  rw [run?_eq, placedItems, read_bind, hmark, Option.bind_some, read_bind,
    (read_many_iff (advances_placedItem rules)).2 h, Option.bind_some, read_bind, read_atEnd,
    hempty]
  rfl

end Grammar

/-- An accepted file is read off its items. -/
theorem Source.parse?_eq_some {text : List Char} {source : Source} :
    Source.parse? text = some source ↔
      ∃ found last, Parser.Repeats (Grammar.item Grammar.rules) (Grammar.behindMark text) found last ∧
        afterGap false last = [] ∧
        source = ⟨Item.lastPackage found, Item.imports (byteLength text) 0 found,
          Item.codeOf (byteLength text) found⟩ := by
  rw [Source.parse?, Option.map_eq_some_iff]
  constructor
  · rintro ⟨found, hrun, rfl⟩
    obtain ⟨last, hrepeats, hempty⟩ := Grammar.run?_items.1 hrun
    exact ⟨found, last, hrepeats, hempty, rfl⟩
  · rintro ⟨found, last, hrepeats, hempty, rfl⟩
    exact ⟨found, Grammar.run?_items.2 ⟨last, hrepeats, hempty⟩, rfl⟩

end PinnedImports.Go
