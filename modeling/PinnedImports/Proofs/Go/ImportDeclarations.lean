import PinnedImports.Proofs.Go.ImportSpecs

/-!
# How import declarations are laid out

`Lines` is the inside of the parentheses of an import declaration: specifications with blanks before
them and terminators behind. `DeclText` is a whole import declaration. What the grammar reads as one
is such a text (`exists_declText`) and each such text is read as the same declaration, with its
places counted from where it stands (`read_importDeclaration`). A declaration can therefore be
exchanged for another one without a look at the rest of the file.
-/

set_option autoImplicit false

namespace PinnedImports.Go

open Text Go.Parser Grammar

/-- The specifications `specs` on lines of their own, with `after` bytes behind the lines. Unless
the lines are `whole`, the last specification may go without a terminator. -/
inductive Lines (whole : Bool) (after : Nat) : List ImportSpec → List Char → Prop
  | done {blanks : List Char} : Blanks blanks → Lines whole after [] blanks
  | last {gap blanks : List Char} {s : SpecText} :
      whole = false → Blanks gap → Blanks blanks →
        Lines whole after [s.placed (byteLength blanks + after)] (gap ++ (s.chars ++ blanks))
  | line {gap closing cs : List Char} {s : SpecText} {specs : List ImportSpec} :
      Blanks gap → Closing closing → Lines whole after specs cs →
        Lines whole after (s.placed (byteLength (closing ++ cs) + after) :: specs)
          (gap ++ (s.chars ++ (closing ++ cs)))

/-- The characters of the keyword. -/
def importWord : List Char := "import".toList

/-- An import declaration with `after` bytes behind it. -/
inductive DeclText (after : Nat) : Item → List Char → Prop
  | single {gap : List Char} {s : SpecText} :
      Blanks gap → EndsWord (gap ++ s.chars) →
        DeclText after (.imported (s.placed after)) (importWord ++ (gap ++ s.chars))
  | block {gap cs : List Char} {specs : List ImportSpec} :
      Blanks gap → Lines false (after + 1) specs cs →
        DeclText after (.importedBlock specs) (importWord ++ (gap ++ '(' :: (cs ++ [')'])))

/-! ## Terminators among blanks -/

theorem isSolid_paren : isSolid ')' = true := by decide

/-- Where a block comment ends is told by its text. -/
theorem block_body_eq {a b x y : List Char} (ha : closesComment (a ++ ['*']) = false)
    (hb : closesComment (b ++ ['*']) = false)
    (h : a ++ '*' :: '/' :: x = b ++ '*' :: '/' :: y) : a = b ∧ x = y := by
  induction a generalizing b with
  | nil =>
    cases b with
    | nil => simpa using h
    | cons d b =>
      rw [List.nil_append, List.cons_append, List.cons.injEq] at h
      obtain ⟨rfl, h⟩ := h
      cases b with
      | nil => simp at h
      | cons e b =>
        rw [List.cons_append, List.cons.injEq] at h
        obtain ⟨rfl, -⟩ := h
        simp [closesComment] at hb
  | cons c a ih =>
    cases b with
    | nil =>
      rw [List.nil_append, List.cons_append, List.cons.injEq] at h
      obtain ⟨rfl, h⟩ := h
      cases a with
      | nil => simp at h
      | cons e a =>
        rw [List.cons_append, List.cons.injEq] at h
        obtain ⟨rfl, -⟩ := h
        simp [closesComment] at ha
    | cons d b =>
      rw [List.cons_append, List.cons_append, List.cons.injEq] at h
      obtain ⟨rfl, h⟩ := h
      obtain ⟨rfl, hxy⟩ := ih (closesComment_cons_of_append ha) (closesComment_cons_of_append hb) h
      exact ⟨rfl, hxy⟩

/-- Where a line comment ends is told by its text. -/
theorem line_body_eq {a b x y : List Char} (ha : '\n' ∉ a) (hb : '\n' ∉ b)
    (h : a ++ '\n' :: x = b ++ '\n' :: y) : a = b ∧ x = y := by
  induction a generalizing b with
  | nil =>
    cases b with
    | nil => simpa using h
    | cons d b =>
      rw [List.nil_append, List.cons_append, List.cons.injEq] at h
      exact absurd (h.1 ▸ List.mem_cons_self ..) hb
  | cons c a ih =>
    rw [List.mem_cons, not_or] at ha
    cases b with
    | nil =>
      rw [List.nil_append, List.cons_append, List.cons.injEq] at h
      exact absurd h.1.symm ha.1
    | cons d b =>
      rw [List.mem_cons, not_or] at hb
      rw [List.cons_append, List.cons_append, List.cons.injEq] at h
      obtain ⟨rfl, hxy⟩ := ih ha.2 hb.2 h.2
      exact ⟨by rw [h.1], hxy⟩

/-- A closing text in front of blanks and a token that is no terminator lies in the blanks. -/
theorem Closing.within_blanks {closing : List Char} (hclosing : Closing closing) :
    ∀ {blanks : List Char} {c : Char} {rest last : List Char}, Blanks blanks →
      isSolid c = true → isTerminator c = false → blanks ++ c :: rest = closing ++ last →
      ∃ tail, Blanks tail ∧ blanks = closing ++ tail ∧ last = tail ++ c :: rest := by
  -- Both texts are cut in the same way, since the first character tells which piece comes next.
  induction hclosing with
  | @mark d hd =>
    intro blanks c rest last hblanks hsolid hend h
    cases hblanks with
    | nil =>
      rw [List.nil_append, List.singleton_append, List.cons.injEq] at h
      rw [h.1, hd] at hend
      simp at hend
    | gap _ htail =>
      rw [List.cons_append, List.singleton_append, List.cons.injEq] at h
      obtain ⟨rfl, rfl⟩ := h
      exact ⟨_, htail, rfl, rfl⟩
    | line =>
      rw [List.cons_append, List.singleton_append, List.cons.injEq] at h
      exact absurd h.1.symm (ne_slash_of_isTerminator hd)
    | block =>
      rw [List.cons_append, List.singleton_append, List.cons.injEq] at h
      exact absurd h.1.symm (ne_slash_of_isTerminator hd)
  | @gap d closing hd hnl _ ih =>
    intro blanks c rest last hblanks hsolid hend h
    cases hblanks with
    | nil =>
      rw [List.nil_append, List.cons_append, List.cons.injEq] at h
      rw [isSolid_iff, h.1, hd] at hsolid
      simp at hsolid
    | gap _ htail =>
      rw [List.cons_append, List.cons_append, List.cons.injEq] at h
      obtain ⟨rfl, h⟩ := h
      obtain ⟨tail, hblanks', rfl, hlast⟩ := ih htail hsolid hend h
      exact ⟨tail, hblanks', rfl, hlast⟩
    | line =>
      simp only [List.cons_append, List.cons.injEq] at h
      exact absurd h.1.symm (ne_slash_of_isGap hd)
    | block =>
      simp only [List.cons_append, List.cons.injEq] at h
      exact absurd h.1.symm (ne_slash_of_isGap hd)
  | @line body hbody =>
    intro blanks c rest last hblanks hsolid hend h
    cases hblanks with
    | nil =>
      rw [List.nil_append, List.cons_append, List.cons.injEq] at h
      exact absurd h.1 (isSolid_iff.1 hsolid).2
    | gap hd _ =>
      rw [List.cons_append, List.cons_append, List.cons.injEq] at h
      exact absurd h.1 (ne_slash_of_isGap hd)
    | line hbody' htail =>
      simp only [List.cons_append, List.append_assoc, List.cons.injEq, true_and,
        List.nil_append] at h
      obtain ⟨rfl, rfl⟩ := line_body_eq hbody' hbody h
      exact ⟨_, htail, by simp, rfl⟩
    | block => simp at h
  | @block body closing hbody _ ih =>
    intro blanks c rest last hblanks hsolid hend h
    cases hblanks with
    | nil =>
      rw [List.nil_append, List.cons_append, List.cons.injEq] at h
      exact absurd h.1 (isSolid_iff.1 hsolid).2
    | gap hd _ =>
      rw [List.cons_append, List.cons_append, List.cons.injEq] at h
      exact absurd h.1 (ne_slash_of_isGap hd)
    | line => simp at h
    | block hbody' htail =>
      simp only [List.cons_append, List.append_assoc, List.cons.injEq, true_and] at h
      obtain ⟨rfl, hrest⟩ := block_body_eq hbody' hbody h
      obtain ⟨tail, hblanks', rfl, hlast⟩ := ih htail hsolid hend hrest
      exact ⟨tail, hblanks', by simp, hlast⟩

namespace Lines

variable {whole : Bool} {after : Nat} {specs : List ImportSpec} {cs : List Char}

theorem of_eq {n : Nat} (h : Lines whole after specs cs) (heq : after = n) :
    Lines whole n specs cs := heq ▸ h

/-- Blanks in front of lines belong to them. -/
theorem prepend {blanks : List Char} (hblanks : Blanks blanks) (h : Lines whole after specs cs) :
    Lines whole after specs (blanks ++ cs) := by
  cases h with
  | done h => exact .done (hblanks.append h)
  | last hwhole hgap h =>
    rw [← List.append_assoc]
    exact .last hwhole (hblanks.append hgap) h
  | line hgap hclosing h =>
    rw [← List.append_assoc]
    exact .line (hblanks.append hgap) hclosing h

/-- Lines behind whole lines go on with them. -/
theorem append {specs' : List ImportSpec} {cs' : List Char}
    (h : Lines true (byteLength cs' + after) specs cs) (h' : Lines whole after specs' cs') :
    Lines whole after (specs ++ specs') (cs ++ cs') := by
  induction h with
  | done hblanks => exact h'.prepend hblanks
  | last hwhole _ _ => simp at hwhole
  | @line gap closing cs s specs hgap hclosing _ ih =>
    have hline := Lines.line (s := s) hgap hclosing ih
    have hplace : byteLength (closing ++ (cs ++ cs')) + after =
        byteLength (closing ++ cs) + (byteLength cs' + after) := by
      simp only [byteLength_append]
      omega
    rw [hplace] at hline
    simpa using hline

/-- Lines may stand in front of any number of bytes; only the places of their specifications
change. -/
theorem move (h : Lines whole after specs cs) (after' : Nat) :
    ∃ specs', Lines whole after' specs' cs ∧
      specs'.map (fun v => (v.name, v.text)) = specs.map fun v => (v.name, v.text) := by
  induction h with
  | done hblanks => exact ⟨[], .done hblanks, rfl⟩
  | last hwhole hgap hblanks => exact ⟨_, .last hwhole hgap hblanks, rfl⟩
  | line hgap hclosing _ ih =>
    obtain ⟨specs', hlines, hmap⟩ := ih
    exact ⟨_, .line hgap hclosing hlines, by rw [List.map_cons, List.map_cons, hmap]; rfl⟩

end Lines

namespace Parser

/-! ## Parts of the grammar of a declaration -/

/-- The next specification between parentheses. -/
def nextSpec : Parser ImportSpec := terminator *> importSpec

/-- What stands behind the last specification between parentheses. -/
def blockEnd : Parser Unit := do
  let _ ← Parser.optional terminator
  symbol ")"

theorem read_importDeclaration_eq (text : List Char) :
    importDeclaration.read text =
      ((keyword "import").read text).bind fun word =>
        if "(".toList.isPrefixOf (afterGap false word.2) then
          ((symbol "(").read word.2).bind fun opened =>
            ((terminated importSpec).read opened.2).bind fun found =>
              ((symbol ")").read found.2).map fun closed => (.importedBlock found.1, closed.2)
        else (importSpec.read word.2).map fun found => (.imported found.1, found.2) := by
  rw [importDeclaration, read_bind]
  congr 1
  funext word
  rw [read_bind, read_isAhead, Option.bind_some]
  split
  · rw [read_bind]
    congr 1
    funext opened
    rw [read_bind]
    congr 1
    funext found
    rw [read_bind]
    cases (symbol ")").read found.2 <;> rfl
  · rw [read_bind]
    cases importSpec.read word.2 <;> rfl

theorem read_blockEnd_eq (text : List Char) :
    blockEnd.read text =
      (symbol ")").read (((terminator.read text).map (·.2)).getD text) := by
  rw [blockEnd, read_bind, read_optional, Option.bind_some]
  cases terminator.read text <;> rfl

/-- Where no specification can be read there are none, and no terminator is passed. -/
theorem read_terminated_none {text : List Char} (h : importSpec.read text = none) :
    (terminated importSpec).read text = some ([], text) := by
  rw [terminated, read_orElse, read_bind, h]
  rfl

theorem advances_terminator : terminator.Advances := by
  intro text rest a h
  rw [read_terminator] at h
  have hlen : (afterGap true text).length ≤ text.length := (List.drop_suffix _ _).length_le
  split at h
  · rename_i c tail heq
    rw [heq, List.length_cons] at hlen
    split at h
    · rw [Option.some.injEq, Prod.mk.injEq] at h
      rw [← h.2]
      omega
    · simp at h
  · simp at h

theorem advances_nextSpec : nextSpec.Advances :=
  advances_terminator.bind fun _ => importSpec

/-- A specification is read with those behind it and with the terminator behind the last one. -/
theorem read_terminated_some {text mid last : List Char} {first : ImportSpec}
    {others : List ImportSpec} (hfirst : importSpec.read text = some (first, mid))
    (hothers : (many nextSpec).read mid = some (others, last)) :
    (terminated importSpec).read text =
      some (first :: others, ((terminator.read last).map (·.2)).getD last) := by
  have hmany : (many (terminator *> importSpec)).read mid = some (others, last) := hothers
  rw [terminated, read_orElse, read_bind, hfirst, Option.bind_some, read_bind, hmany,
    Option.bind_some, read_bind, read_optional, Option.bind_some]
  cases terminator.read last <;> rfl

/-! ## What stands in front of the closing parenthesis -/

variable {blanks closing : List Char}

theorem read_symbol_paren (hblanks : Blanks blanks) (rest : List Char) :
    (symbol ")").read (blanks ++ ')' :: rest) = some ((), rest) := by
  rw [read_symbol, afterGap_append hblanks, afterGap_solid false isSolid_paren]
  simp

theorem exists_blanks_of_symbol {word : String} {c : Char} (hword : word.toList = [c])
    {text rest : List Char} (h : (symbol word).read text = some ((), rest)) :
    ∃ blanks, Blanks blanks ∧ text = blanks ++ c :: rest := by
  rw [read_symbol, hword] at h
  split at h
  · rename_i hprefix
    rw [Option.some.injEq, Prod.mk.injEq] at h
    cases hafter : afterGap false text with
    | nil => simp [hafter] at hprefix
    | cons d tail =>
      have hd : c = d := by simpa [hafter] using hprefix
      have hne : afterGap false text ≠ [] := by simp [hafter]
      obtain ⟨blanks, hblanks, htext⟩ := exists_blanks hne
      rw [hafter] at h htext
      have htail : tail = rest := by simpa using h.2
      exact ⟨blanks, hblanks, by rw [htext, hd, htail]⟩
  · simp at h

/-- A terminator in front of a closing parenthesis leaves blanks and the parenthesis. -/
theorem read_terminator_blanks (hblanks : Blanks blanks) (rest : List Char) :
    terminator.read (blanks ++ ')' :: rest) = none ∨
      ∃ tail, Blanks tail ∧
        terminator.read (blanks ++ ')' :: rest) = some ((), tail ++ ')' :: rest) := by
  cases hread : terminator.read (blanks ++ ')' :: rest) with
  | none => exact .inl rfl
  | some r =>
    obtain ⟨closing, hclosing, heq⟩ := closing_of_read hread
    obtain ⟨tail, htail, -, hlast⟩ :=
      hclosing.within_blanks hblanks isSolid_paren (by decide) heq
    exact .inr ⟨tail, htail, by rw [← hlast]⟩

theorem read_blockEnd (hblanks : Blanks blanks) (rest : List Char) :
    blockEnd.read (blanks ++ ')' :: rest) = some ((), rest) := by
  rw [read_blockEnd_eq]
  rcases read_terminator_blanks hblanks rest with hnone | ⟨tail, htail, hsome⟩
  · rw [hnone]
    exact read_symbol_paren hblanks rest
  · rw [hsome]
    exact read_symbol_paren htail rest

theorem read_blockEnd_closing (hclosing : Closing closing) (hblanks : Blanks blanks)
    (rest : List Char) :
    blockEnd.read (closing ++ (blanks ++ ')' :: rest)) = some ((), rest) := by
  rw [read_blockEnd_eq, read_terminator_append hclosing]
  exact read_symbol_paren hblanks rest

theorem exists_blanks_of_blockEnd {text rest : List Char}
    (h : blockEnd.read text = some ((), rest)) :
    ∃ blanks, Blanks blanks ∧ (text = blanks ++ ')' :: rest ∨
      ∃ closing, Closing closing ∧ text = closing ++ (blanks ++ ')' :: rest)) := by
  rw [read_blockEnd_eq] at h
  cases hread : terminator.read text with
  | none =>
    rw [hread] at h
    obtain ⟨blanks, hblanks, htext⟩ := exists_blanks_of_symbol rfl h
    exact ⟨blanks, hblanks, .inl htext⟩
  | some r =>
    rw [hread] at h
    obtain ⟨blanks, hblanks, htext⟩ := exists_blanks_of_symbol rfl h
    obtain ⟨closing, hclosing, heq⟩ := closing_of_read hread
    exact ⟨blanks, hblanks, .inr ⟨closing, hclosing, by rw [heq]; exact congrArg _ htext⟩⟩

theorem read_importSpec_paren (hblanks : Blanks blanks) (rest : List Char) :
    importSpec.read (blanks ++ ')' :: rest) = none := by
  refine read_importSpec_none hblanks isSolid_paren ?_ rest
  rintro (h | h | h | h)
  all_goals exact absurd h (by decide)

theorem read_nextSpec_closing (hclosing : Closing closing) (text : List Char) :
    nextSpec.read (closing ++ text) = importSpec.read text := by
  rw [nextSpec, read_seqRight, read_terminator_append hclosing, Option.bind_some]

theorem read_nextSpec_paren (hblanks : Blanks blanks) (rest : List Char) :
    nextSpec.read (blanks ++ ')' :: rest) = none := by
  rw [nextSpec, read_seqRight]
  rcases read_terminator_blanks hblanks rest with hnone | ⟨tail, htail, hsome⟩
  · rw [hnone]
    rfl
  · rw [hsome]
    exact read_importSpec_paren htail rest

end Parser

/-! ## Lines are read -/

theorem byteLength_before_paren (cs rest : List Char) :
    byteLength (cs ++ ')' :: rest) = byteLength cs + (byteLength rest + 1) := by
  have hparen : (')' : Char).utf8Size = 1 := rfl
  rw [byteLength_append, byteLength_cons, hparen, Nat.add_comm 1]

/-- Behind a terminator the specifications of the lines are read one after another, up to the end of
the parentheses. -/
theorem Lines.repeats {specs : List ImportSpec} {cs rest : List Char}
    (h : Lines false (byteLength rest + 1) specs cs) :
    ∀ {closing : List Char}, Closing closing →
      ∃ last, Repeats nextSpec (closing ++ (cs ++ ')' :: rest)) specs last ∧
        blockEnd.read last = some ((), rest) := by
  induction h with
  | done hblanks =>
    intro closing hclosing
    refine ⟨_, .stop ?_, read_blockEnd_closing hclosing hblanks rest⟩
    rw [read_nextSpec_closing hclosing, read_importSpec_paren hblanks]
  | @last gap blanks s _ hgap hblanks =>
    intro closing hclosing
    refine ⟨_, .next ?_ (.stop (read_nextSpec_paren hblanks rest)), read_blockEnd hblanks rest⟩
    rw [read_nextSpec_closing hclosing, List.append_assoc, List.append_assoc,
      read_importSpec hgap, byteLength_before_paren]
  | @line gap closing' cs s specs hgap hclosing' _ ih =>
    intro closing hclosing
    obtain ⟨last, hrepeats, hend⟩ := ih hclosing'
    refine ⟨last, .next ?_ hrepeats, hend⟩
    rw [read_nextSpec_closing hclosing, List.append_assoc, List.append_assoc, List.append_assoc,
      read_importSpec hgap, ← List.append_assoc closing', byteLength_before_paren]

/-- The inside of parentheses is read up to their end. -/
theorem Lines.read_terminated {specs : List ImportSpec} {cs rest : List Char}
    (h : Lines false (byteLength rest + 1) specs cs) :
    ∃ last, (terminated importSpec).read (cs ++ ')' :: rest) = some (specs, last) ∧
      (symbol ")").read last = some ((), rest) := by
  cases h with
  | done hblanks =>
    exact ⟨_, read_terminated_none (read_importSpec_paren hblanks rest),
      read_symbol_paren hblanks rest⟩
  | @last gap blanks s _ hgap hblanks =>
    have hmany := (read_many_iff advances_nextSpec).2 (.stop (read_nextSpec_paren hblanks rest))
    have hend := read_blockEnd hblanks rest
    rw [read_blockEnd_eq] at hend
    refine ⟨_, ?_, hend⟩
    rw [List.append_assoc, List.append_assoc,
      read_terminated_some (read_importSpec hgap _ _) hmany, byteLength_before_paren]
  | @line gap closing cs s specs hgap hclosing hlines =>
    obtain ⟨last, hrepeats, hend⟩ := hlines.repeats hclosing
    have hmany := (read_many_iff advances_nextSpec).2 hrepeats
    rw [read_blockEnd_eq] at hend
    refine ⟨_, ?_, hend⟩
    rw [List.append_assoc, List.append_assoc, List.append_assoc,
      read_terminated_some (read_importSpec hgap _ _) hmany, ← List.append_assoc closing,
      byteLength_before_paren]

theorem isWord_importWord : IsWord importWord := by
  refine ⟨'i', "mport".toList, by decide, by decide, ?_⟩
  have hall : "mport".toList.all Text.isIdentifierContinue = true := by decide
  exact List.all_eq_true.1 hall

theorem IsWord.afterGap {word blanks : List Char} (h : IsWord word) (hblanks : Blanks blanks)
    (rest : List Char) : Go.afterGap false (blanks ++ (word ++ rest)) = word ++ rest := by
  obtain ⟨c, cs, rfl, hc, -⟩ := h
  rw [afterGap_append hblanks]
  exact afterGap_solid false (isSolid_of_isIdentifierStart hc) _

theorem DeclText.item {after : Nat} {item : Item} {cs : List Char} (h : DeclText after item cs) :
    (∃ spec, item = .imported spec) ∨ ∃ specs, item = .importedBlock specs := by
  cases h with
  | single => exact .inl ⟨_, rfl⟩
  | block => exact .inr ⟨_, rfl⟩

theorem DeclText.ne_nil {after : Nat} {item : Item} {cs : List Char} (h : DeclText after item cs) :
    cs ≠ [] := by
  cases h with
  | single => simp [importWord]
  | block => simp

theorem DeclText.afterGap {blanks cs rest : List Char} {after : Nat} {item : Item}
    (h : DeclText after item cs) (hblanks : Blanks blanks) :
    Go.afterGap false (blanks ++ (cs ++ rest)) = cs ++ rest := by
  cases h with
  | single => simpa using isWord_importWord.afterGap hblanks _
  | block => simpa using isWord_importWord.afterGap hblanks _

/-- A keyword is read wherever it stands, if the word ends with it. -/
theorem read_keyword_word {word : String} (hword : IsWord word.toList) {blanks rest : List Char}
    (hblanks : Blanks blanks) (hrest : EndsWord rest) :
    (keyword word).read (blanks ++ (word.toList ++ rest)) = some ((), rest) := by
  rw [read_keyword, hword.afterGap hblanks, wordLength_append hword hrest, Option.bind_some,
    List.take_left, List.drop_left, String.ofList_toList]
  exact if_pos (beq_self_eq_true word)

theorem read_keyword_import {blanks rest : List Char} (hblanks : Blanks blanks)
    (hrest : EndsWord rest) :
    (keyword "import").read (blanks ++ (importWord ++ rest)) = some ((), rest) :=
  read_keyword_word isWord_importWord hblanks hrest

theorem endsWord_paren {gap : List Char} (h : Blanks gap) (rest : List Char) :
    EndsWord (gap ++ '(' :: rest) := by
  refine EndsWord.blanks h fun c hc => ?_
  rw [List.head?_cons, Option.mem_some_iff] at hc
  rw [← hc]
  decide

theorem EndsWord.append {text : List Char} (h : EndsWord text) (hne : text ≠ [])
    (rest : List Char) : EndsWord (text ++ rest) := by
  cases text with
  | nil => exact absurd rfl hne
  | cons c cs => exact h

/-- **An import declaration is read wherever it stands, whatever follows it.** -/
theorem read_importDeclaration {blanks cs rest : List Char} {item : Item} (hblanks : Blanks blanks)
    (h : DeclText (byteLength rest) item cs) :
    importDeclaration.read (blanks ++ (cs ++ rest)) = some (item, rest) := by
  have hafter {gap : List Char} (hgap : Blanks gap) (text : List Char) :
      afterGap false (gap ++ '(' :: text) = '(' :: text := by
    rw [afterGap_append hgap, afterGap_solid false (by decide)]
  rw [read_importDeclaration_eq]
  cases h with
  | @single gap s hgap hends =>
    obtain ⟨c, chars, hchars, hc⟩ := s.chars_start
    have hne : gap ++ s.chars ≠ [] := by simp [hchars]
    have hparen : "(".toList.isPrefixOf (s.chars ++ rest) = false := by
      have hne' : ('(' == c) = false := beq_false_of_ne hc.ne_paren.symm
      simp [hchars, List.isPrefixOf, hne']
    rw [List.append_assoc, read_keyword_import hblanks (hends.append hne rest), Option.bind_some,
      List.append_assoc, afterGap_specText hgap, hparen, read_importSpec hgap]
    rfl
  | @block gap cs specs hgap hlines =>
    obtain ⟨last, hspecs, hend⟩ := hlines.read_terminated
    simp only [List.append_assoc, List.cons_append, List.nil_append]
    rw [read_keyword_import hblanks (endsWord_paren hgap _), Option.bind_some, hafter hgap,
      read_symbol, hafter hgap]
    simp [hspecs, hend]

/-! ## What is read are lines -/

/-- The specifications read one after another, with the end of the parentheses behind them, are
lines. -/
theorem Lines.of_repeats {specs : List ImportSpec} {text last rest : List Char}
    (h : Repeats nextSpec text specs last) (hend : blockEnd.read last = some ((), rest)) :
    ∀ {gap : List Char} (s : SpecText), Blanks gap →
      ∃ cs, gap ++ (s.chars ++ text) = cs ++ ')' :: rest ∧
        Lines false (byteLength rest + 1) (s.placed (byteLength text) :: specs) cs := by
  induction h with
  | @stop text _ =>
    intro gap s hgap
    obtain ⟨blanks, hblanks, htext | ⟨closing, hclosing, htext⟩⟩ := exists_blanks_of_blockEnd hend
    · subst htext
      have hlast : Lines false (byteLength rest + 1)
          [s.placed (byteLength blanks + (byteLength rest + 1))] (gap ++ (s.chars ++ blanks)) :=
        .last rfl hgap hblanks
      rw [← byteLength_before_paren] at hlast
      exact ⟨_, by simp, hlast⟩
    · subst htext
      have hdone : Lines false (byteLength rest + 1) [] blanks := .done hblanks
      have hline := Lines.line (s := s) hgap hclosing hdone
      rw [← byteLength_before_paren, List.append_assoc] at hline
      exact ⟨_, by simp, hline⟩
  | @next text mid last v as hread _ ih =>
    intro gap s hgap
    rw [nextSpec, read_seqRight, Option.bind_eq_some_iff] at hread
    obtain ⟨⟨⟨⟩, text'⟩, hterminator, hspec⟩ := hread
    obtain ⟨closing, hclosing, rfl⟩ := closing_of_read hterminator
    obtain ⟨gap', s', hgap', htext', rfl⟩ := exists_specText hspec
    obtain ⟨cs, hcs, hlines⟩ := ih hend s' hgap'
    simp only at htext'
    rw [htext', hcs]
    have hline := Lines.line (s := s) hgap hclosing hlines
    rw [← byteLength_before_paren, List.append_assoc] at hline
    exact ⟨_, by simp, hline⟩

/-- What is read as a keyword is one. -/
theorem exists_keyword {word : String} {text rest : List Char}
    (h : (keyword word).read text = some ((), rest)) :
    ∃ blanks, Blanks blanks ∧ text = blanks ++ (word.toList ++ rest) ∧ IsWord word.toList ∧
      EndsWord rest := by
  rw [read_keyword, Option.bind_eq_some_iff] at h
  obtain ⟨n, hn, h⟩ := h
  split at h
  · rename_i hword
    obtain ⟨name, tail, hafter, rfl, hname, hends⟩ := isWord_of_wordLength hn
    have hne : afterGap false text ≠ [] := by
      intro hnil
      rw [hnil] at hn
      simp [wordLength] at hn
    obtain ⟨blanks, hblanks, htext⟩ := exists_blanks hne
    rw [hafter, List.take_left, beq_iff_eq, ← String.toList_inj, String.toList_ofList] at hword
    rw [hafter, List.drop_left, Option.some.injEq, Prod.mk.injEq] at h
    obtain ⟨-, rfl⟩ := h
    rw [hafter, hword] at htext
    exact ⟨blanks, hblanks, htext, hword ▸ hname, hends⟩
  · simp at h

theorem exists_keyword_import {text rest : List Char}
    (h : (keyword "import").read text = some ((), rest)) :
    ∃ blanks, Blanks blanks ∧ text = blanks ++ (importWord ++ rest) ∧ EndsWord rest := by
  obtain ⟨blanks, hblanks, htext, -, hends⟩ := exists_keyword h
  exact ⟨blanks, hblanks, htext, hends⟩

theorem EndsWord.of_append {text rest : List Char} (hne : text ≠ [])
    (h : EndsWord (text ++ rest)) : EndsWord text := by
  cases text with
  | nil => exact absurd rfl hne
  | cons c cs => exact h

/-- What is read between parentheses are lines. -/
theorem exists_lines {inside last rest : List Char} {specs : List ImportSpec}
    (hspecs : (terminated importSpec).read inside = some (specs, last))
    (hend : (symbol ")").read last = some ((), rest)) :
    ∃ cs, inside = cs ++ ')' :: rest ∧ Lines false (byteLength rest + 1) specs cs := by
  cases hfirst : importSpec.read inside with
  | none =>
    rw [read_terminated_none hfirst, Option.some.injEq, Prod.mk.injEq] at hspecs
    obtain ⟨rfl, rfl⟩ := hspecs
    obtain ⟨blanks, hblanks, rfl⟩ := exists_blanks_of_symbol rfl hend
    exact ⟨blanks, rfl, .done hblanks⟩
  | some first =>
    obtain ⟨spec, mid⟩ := first
    obtain ⟨⟨others, behind⟩, hmany⟩ := exists_read_many nextSpec mid
    rw [read_terminated_some hfirst hmany, Option.some.injEq, Prod.mk.injEq] at hspecs
    obtain ⟨rfl, rfl⟩ := hspecs
    obtain ⟨blanks, s, hblanks, rfl, rfl⟩ := exists_specText hfirst
    rw [← read_blockEnd_eq] at hend
    exact Lines.of_repeats ((read_many_iff advances_nextSpec).1 hmany) hend s hblanks

/-- **What is read as an import declaration is one, with the places it has in the text.** -/
theorem exists_declText {text rest : List Char} {item : Item}
    (h : importDeclaration.read text = some (item, rest)) :
    ∃ blanks cs, Blanks blanks ∧ text = blanks ++ (cs ++ rest) ∧
      DeclText (byteLength rest) item cs := by
  rw [read_importDeclaration_eq, Option.bind_eq_some_iff] at h
  obtain ⟨⟨⟨⟩, text'⟩, hword, h⟩ := h
  obtain ⟨blanks, hblanks, rfl, hends⟩ := exists_keyword_import hword
  split at h
  · rw [Option.bind_eq_some_iff] at h
    obtain ⟨⟨⟨⟩, inside⟩, hopen, h⟩ := h
    obtain ⟨gap, hgap, rfl⟩ := exists_blanks_of_symbol (c := '(') rfl hopen
    rw [Option.bind_eq_some_iff] at h
    obtain ⟨⟨specs, last⟩, hspecs, h⟩ := h
    rw [Option.map_eq_some_iff] at h
    obtain ⟨⟨⟨⟩, closed⟩, hend, heq⟩ := h
    rw [Prod.mk.injEq] at heq
    obtain ⟨rfl, rfl⟩ := heq
    obtain ⟨cs, hcs, hlines⟩ := exists_lines hspecs hend
    refine ⟨blanks, _, hblanks, ?_, .block hgap hlines⟩
    simp only at hcs
    rw [hcs]
    simp
  · rw [Option.map_eq_some_iff] at h
    obtain ⟨⟨spec, last⟩, hspec, heq⟩ := h
    rw [Prod.mk.injEq] at heq
    obtain ⟨rfl, rfl⟩ := heq
    obtain ⟨gap, s, hgap, htext, rfl⟩ := exists_specText hspec
    simp only at htext
    obtain ⟨c, chars, hchars, -⟩ := s.chars_start
    refine ⟨blanks, importWord ++ (gap ++ s.chars), hblanks, ?_, .single hgap ?_⟩
    · rw [htext]
      simp
    · rw [htext, ← List.append_assoc] at hends
      exact EndsWord.of_append (by simp [hchars]) hends

end PinnedImports.Go
