import PinnedImports.Proofs.Go.Agreement.Declarations

/-!
# Statements on two texts

The rules for statements agree on the two texts of a seam where the rules for the parts do, and so
does every rule of the grammar (`matches_step`).
-/

set_option autoImplicit false

namespace PinnedImports.Go

open PinnedImports.Go.Parser PinnedImports.Go.Grammar

namespace Seam

variable {s : Seam} {bounds : Nat × Nat} {rules rules' : Rules}

/-! ## Where statements end -/

theorem Ahead.endsList {cs cs' : List Char} (h : s.Ahead cs cs') (inCase : Bool) :
    Grammar.endsList inCase cs' = Grammar.endsList inCase cs := by
  rw [Grammar.endsList, Grammar.endsList, h.head?, h.word?]

theorem Ahead.endsStatement {cs cs' : List Char} (h : s.Ahead cs cs') (inCase : Bool) :
    Grammar.endsStatement inCase cs' = Grammar.endsStatement inCase cs := by
  rw [Grammar.endsStatement, Grammar.endsStatement, h.head?, h.endsList]

section

variable (hs : s.Between)

include hs

theorem agree_requireEnd (inCase : Bool) :
    s.Agree bounds true true Any (requireEnd inCase)
      (requireEnd inCase) :=
  agree_ahead_bind hs fun _ _ hahead => agree_require (hahead.endsStatement inCase)

theorem matches_label : s.Matches bounds s.Similar label label := by
  intro before
  refine agree_ahead_bind hs fun cs cs' hahead => ?_
  dsimp only
  rw [hahead.word?]
  refine (agree_require rfl).bind fun _ _ _ => (matches_name hs before).bind fun _ _ hname =>
    agree_ahead_bind hs fun cs cs' hahead => ?_
  have hdefines := hahead.isPrefixOf (show ":=".toList ∈ signs by decide)
  rw [hahead.head?, hdefines]
  exact (agree_require rfl).bind fun _ _ _ => (matches_symbol hs (by decide) true).bind
    fun _ _ _ => agree_pure hname.1

theorem agree_targetLabel (inCase : Bool) :
    s.Agree bounds true true (List.Forall₂ s.Similar) (targetLabel inCase)
      (targetLabel inCase) := by
  refine agree_ahead_bind hs fun cs cs' hahead => ?_
  rw [hahead.endsStatement]
  exact Agree.ite (fun _ => agree_pure .nil) fun _ => (matches_name hs true).bind
    fun _ _ hname => agree_pure (.cons hname.1 .nil)

theorem matches_passGuard : s.Matches bounds Any passGuard passGuard :=
  (matches_symbol hs (by decide)).bind fun _ _ _ => (matches_symbol hs (by decide) true).bind
    fun _ _ _ => (matches_keyword hs _ true).bind fun _ _ _ => matches_symbol hs (by decide) true

end

/-! ## Simple statements -/

theorem assignmentOperators_mem_signs : ∀ operator ∈ assignmentOperators, operator ∈ signs := by
  decide

/-- Trees with a mark, the same in both texts. -/
def SameMarked {α : Type} (s : Seam) (marked marked' : α × List Tree) : Prop :=
  marked'.1 = marked.1 ∧ List.Forall₂ s.Similar marked.2 marked'.2

section

variable (hs : s.Between) (h : s.RulesMatch bounds rules rules')

include hs h

theorem matches_assigned (values : Context) {lefts lefts' : List Tree}
    (hlefts : List.Forall₂ s.Similar lefts lefts') :
    s.Matches bounds s.SameMarked (assigned rules values lefts)
      (assigned rules' values lefts') := by
  refine (matches_expression (h.part _)).bind fun first first' hfirst =>
    agree_ahead_bind hs fun cs cs' hahead => ?_
  rw [hahead.guardAhead hs]
  refine Agree.ite (fun _ => (matches_passGuard hs true).bind fun _ _ _ =>
    agree_pure ⟨rfl, List.rel_append hlefts (.cons hfirst .nil)⟩) fun _ => ?_
  exact (agree_separated hs (by decide) (matches_expression (h.part _))
    (advances_expression h.advances _) (advances_expression h.advances' _)).bind
      fun _ _ hothers => agree_pure ⟨rfl, List.rel_append hlefts (.cons hfirst hothers)⟩

end

section

variable {rank : Nat} (hs : s.Between) (h : s.RankedMatch bounds rank rules rules')
  (hrank : 2 < rank)

include hs h hrank

theorem matches_simpleStatement (first values : Context) :
    s.Matches (including bounds) s.SameMarked (simpleStatement rules first values)
      (simpleStatement rules' first values) := by
  refine (matches_expression (h.same (.operand first) hrank)).bind_advancing
    (advances_expression h.advances _) (advances_expression h.advances' _) fun head head' hhead =>
      agree_ahead_bind hs fun cs cs' hahead => ?_
  dsimp only
  rw [hahead.guardAhead hs, hahead.head?]
  refine Agree.ite (fun _ => (matches_passGuard hs true).bind fun _ _ _ =>
    agree_pure ⟨rfl, .cons hhead .nil⟩) fun _ => ?_
  refine Agree.ite (fun _ => (agree_moreOperands hs h.toRulesMatch .assigned).bind ?_)
    fun _ => (agree_pure (R := List.Forall₂ s.Similar) .nil).bind ?_
  -- Behind the list the assignment or the operator follows.
  all_goals
    refine fun others others' hothers => agree_ahead_bind hs fun cs cs' hahead => ?_
    have hlefts := List.Forall₂.cons hhead hothers
    have hassigned := fun values => matches_assigned hs h.toRulesMatch values hlefts true
    have hsign : ∀ {sign : String}, sign.toList ∈ signs →
        sign.toList.isPrefixOf cs' = sign.toList.isPrefixOf cs := hahead.isPrefixOf
    rw [hsign (by decide), hsign (by decide), hsign (by decide), hsign (by decide),
      hahead.operator? assignmentOperators_mem_signs]
    refine Agree.ite (fun _ => (matches_symbol hs (by decide) true).bind fun _ _ _ =>
      hassigned _) fun _ => ?_
    split
    · rename_i operator hoperator
      have hmem := sign_mem_lexemes (assignmentOperators_mem_signs _ (operator?_mem hoperator).1)
      exact (matches_lexeme hs hmem true).bind fun _ _ _ => hassigned _
    · have hdone : ∀ simple : Simple, s.Agree bounds true true s.SameMarked (pure (simple, [head]))
          (pure (simple, [head'])) := fun simple => agree_pure ⟨rfl, .cons hhead .nil⟩
      exact (agree_require rfl).bind fun _ _ _ =>
        Agree.ite (fun _ => (matches_symbol hs (by decide) true).bind fun _ _ _ => hdone _) fun _ =>
        Agree.ite (fun _ => (matches_symbol hs (by decide) true).bind fun _ _ _ => hdone _) fun _ =>
        Agree.ite (fun _ => (matches_symbol hs (by decide) true).bind fun _ _ _ =>
          (matches_expression (h.part _) true).bind fun _ _ hvalue =>
            agree_pure ⟨rfl, .cons hhead (.cons hvalue .nil)⟩) fun _ => hdone _

theorem matches_headerStatement (literals : Bool) :
    s.Matches bounds s.SameMarked (headerStatement rules literals)
      (headerStatement rules' literals) :=
  (matches_simpleStatement hs h hrank _ _).of_including

theorem matches_ifHeader (literals : Bool) :
    s.Matches bounds (List.Forall₂ s.Similar) (ifHeader rules literals)
      (ifHeader rules' literals) := by
  refine (matches_headerStatement hs h hrank literals).bind ?_
  rintro ⟨simple, trees⟩ ⟨_, trees'⟩ ⟨rfl, htrees⟩
  refine (agree_isAhead hs (by decide)).bind ?_
  rintro semicolon _ rfl
  exact Agree.ite
    (fun _ => (matches_symbol hs (by decide) true).bind fun _ _ _ =>
      (matches_expression (h.part _) true).bind fun _ _ hvalue =>
        agree_pure (List.rel_append htrees (.cons hvalue .nil)))
    fun _ => (agree_require rfl).bind fun _ _ _ => agree_pure htrees

omit hrank in
theorem matches_rangeClause (literals : Bool) :
    s.Matches bounds (List.Forall₂ s.Similar) (rangeClause rules literals)
      (rangeClause rules' literals) := by
  intro before
  refine agree_ahead_bind hs fun cs cs' hahead => ?_
  rw [hahead.word?]
  have hrange : ∀ {before : Bool} (lefts lefts' : List Tree), List.Forall₂ s.Similar lefts lefts' →
      s.Agree bounds before true (List.Forall₂ s.Similar)
        (do
          keyword "range"
          return lefts ++ [← expression rules (.header literals .value)])
        (do
          keyword "range"
          return lefts' ++ [← expression rules' (.header literals .value)]) :=
    fun lefts lefts' hlefts => (matches_keyword hs _ _).bind fun _ _ _ =>
      (matches_expression (h.part _) true).bind fun _ _ hvalue =>
        agree_pure (List.rel_append hlefts (.cons hvalue .nil))
  have hassign : s.Matches bounds Any (symbol ":=" <|> symbol "=")
      (symbol ":=" <|> symbol "=") :=
    (matches_symbol hs (by decide)).orElse (matches_symbol hs (by decide))
  refine Agree.ite (fun _ => (agree_pure .nil).bind hrange) fun _ => ?_
  exact (matches_expression (h.part _) before).bind fun _ _ hfirst =>
    (agree_moreOperands hs h.toRulesMatch .assigned).bind fun _ _ hothers =>
      (hassign true).bind fun _ _ _ => (agree_pure (.cons hfirst hothers)).bind hrange

/-- What stands behind the first part of a clause with two semicolons. -/
def clauseRest (rules : Rules) (literals : Bool) (first : List Tree) : Parser (List Tree) := do
  symbol ";"
  let condition ←
    if ← isAhead false ";" then pure [] else (do return [← expression rules .bracketed])
  symbol ";"
  let update ←
    if ← isAhead false openBrace then pure []
    else (·.2) <$> simpleStatement rules (.header literals .statement) (.header literals .value)
  return first ++ condition ++ update

theorem matches_clauseRest (literals : Bool) {first first' : List Tree}
    (hfirst : List.Forall₂ s.Similar first first') :
    s.Matches bounds (List.Forall₂ s.Similar) (clauseRest rules literals first)
      (clauseRest rules' literals first') := by
  refine (matches_symbol hs (by decide)).bind fun _ _ _ => (agree_isAhead hs (by decide)).bind ?_
  rintro semicolon _ rfl
  have hvalue : s.Agree bounds true true (List.Forall₂ s.Similar)
      (do return [← expression rules .bracketed]) (do return [← expression rules' .bracketed]) :=
    (matches_expression (h.part _) true).bind fun _ _ hvalue => agree_pure (.cons hvalue .nil)
  refine Agree.ite (fun _ => (agree_pure (R := List.Forall₂ s.Similar) .nil).bind ?_)
    fun _ => hvalue.bind ?_
  all_goals
    refine fun condition condition' hcondition => (matches_symbol hs (by decide) true).bind
      fun _ _ _ => (agree_isAhead hs (by decide)).bind ?_
    rintro brace _ rfl
    have hclause : ∀ update update', List.Forall₂ s.Similar update update' →
        s.Agree bounds true true (List.Forall₂ s.Similar) (pure (first ++ condition ++ update))
          (pure (first' ++ condition' ++ update')) :=
      fun _ _ hupdate => agree_pure (List.rel_append (List.rel_append hfirst hcondition) hupdate)
    exact Agree.ite (fun _ => (agree_pure .nil).bind hclause) fun _ =>
      (((matches_simpleStatement hs h hrank _ _).of_including true).map
        fun _ _ hupdate => hupdate.2).bind hclause

theorem matches_forClause (literals : Bool) :
    s.Matches bounds (List.Forall₂ s.Similar) (forClause rules literals)
      (forClause rules' literals) := by
  intro before
  refine (agree_isAhead hs (by decide)).bind ?_
  rintro semicolon _ rfl
  -- A semicolon that is ahead is not passed yet, so the clause does not end there.
  refine Agree.ite (fun _ => (agree_pure (R := fun marked marked' =>
    s.SameMarked marked marked' ∧ marked.1 = .statement) ⟨⟨rfl, .nil⟩, rfl⟩).bind ?_) fun _ =>
      (matches_headerStatement hs h hrank literals before).bind ?_
  · rintro ⟨_, first⟩ ⟨_, first'⟩ ⟨⟨rfl, hfirst⟩, rfl⟩
    refine (agree_isAhead hs (by decide)).bind ?_
    rintro semicolon' _ rfl
    exact Agree.ite (fun hexpression => by simp at hexpression) fun _ =>
      matches_clauseRest hs h hrank literals hfirst before
  · rintro ⟨simple, first⟩ ⟨_, first'⟩ ⟨rfl, hfirst⟩
    refine (agree_isAhead hs (by decide)).bind ?_
    rintro semicolon' _ rfl
    exact Agree.ite (fun _ => agree_pure hfirst) fun _ =>
      matches_clauseRest hs h hrank literals hfirst true

theorem agree_forHeader (literals : Bool) :
    s.Agree bounds true true (List.Forall₂ s.Similar) (forHeader rules literals)
      (forHeader rules' literals) := by
  have hrange := matches_rangeClause hs h literals true
  refine (agree_isAhead hs (by decide)).bind ?_
  rintro brace _ rfl
  refine Agree.ite (fun _ => agree_pure .nil) fun _ => agree_ahead_bind hs fun cs cs' hahead => ?_
  rw [hahead.word?]
  exact Agree.ite (fun _ => hrange) fun _ =>
    hrange.orElse (matches_forClause hs h hrank literals true)

theorem agree_switchHeader (literals : Bool) :
    s.Agree bounds true true s.SameMarked (switchHeader rules literals)
      (switchHeader rules' literals) := by
  have hpart := (matches_simpleStatement hs h hrank
    { Context.header literals .statement with guardFollows := true }
    { Context.bracketed with guardFollows := true }).of_including true
  refine (agree_isAhead hs (by decide)).bind ?_
  rintro brace _ rfl
  refine Agree.ite (fun _ => agree_pure ⟨rfl, .nil⟩) fun _ => hpart.bind ?_
  rintro ⟨simple, trees⟩ ⟨_, trees'⟩ ⟨rfl, htrees⟩
  refine Agree.ite (fun _ => agree_pure ⟨rfl, htrees⟩) fun _ =>
    (agree_isAhead hs (by decide)).bind ?_
  rintro semicolon _ rfl
  refine Agree.ite (fun _ => (matches_symbol hs (by decide) true).bind fun _ _ _ =>
    (agree_isAhead hs (by decide)).bind ?_)
      fun _ => (agree_require rfl).bind fun _ _ _ => agree_pure ⟨rfl, htrees⟩
  rintro brace' _ rfl
  refine Agree.ite (fun _ => agree_pure ⟨rfl, htrees⟩) fun _ => hpart.bind ?_
  rintro ⟨simple', more⟩ ⟨_, more'⟩ ⟨rfl, hmore⟩
  exact (agree_require rfl).bind fun _ _ _ => agree_pure ⟨rfl, List.rel_append htrees hmore⟩

omit hs h hrank in
theorem agree_headed {α : Type} {header header' : Bool → Parser α}
    {next next' : α → Parser (List Tree)} {R : α → α → Prop}
    (hheader : ∀ literals, s.Agree bounds true true R (header literals) (header' literals))
    (hnext : ∀ a a', R a a' →
      s.Agree bounds true true (List.Forall₂ s.Similar) (next a) (next' a')) :
    s.Agree bounds true true (List.Forall₂ s.Similar) (headed header next)
      (headed header' next') :=
  (hheader false).firstThatLeads (hheader true) hnext

end

/-! ## Blocks and cases -/

section

variable (hs : s.Between) (h : s.RulesMatch bounds rules rules')

include hs h

/-- **Lists of statements are the same**, however long they are. -/
theorem agree_statements (inCase : Bool) :
    s.Agree bounds true true (List.Forall₂ s.Similar) (statements rules inCase)
      (statements rules' inCase) := by
  intro cs
  induction hlength : cs.length using Nat.strong_induction_on generalizing cs with
  | _ n ih =>
    intro cs' hlike hleft hleft'
    rw [AgreeAt, read_statements h.advances, read_statements h.advances', statementThen,
      statementThen]
    refine agreeAt_ahead_bind ?_
    rw [(hlike.ahead hs _).endsList]
    have hlabel : s.Agree bounds true true (List.Forall₂ s.Similar)
        (do
          let tree ← label
          require (endsList inCase (← ahead false))
          return [tree])
        (do
          let tree ← label
          require (endsList inCase (← ahead false))
          return [tree]) :=
      (matches_label hs true).bind fun _ _ hlabel => agree_ahead_bind hs fun _ _ hahead =>
        (agree_require (hahead.endsList inCase)).bind fun _ _ _ =>
          agree_pure (.cons hlabel .nil)
    split
    · exact .of_some (read_pure ..) (read_pure ..) .nil hlike
    · refine (hlabel hlike hleft hleft').orElse ((h.part _ true hlike hleft hleft').bind
        fun tree rest tree' rest' hread hread' htree hrest => ?_)
      have hshorter := h.advances _ hread
      have hle := (byteLength_le_of_read hread).trans_lt hleft
      have hle' := (byteLength_le_of_read hread').trans_lt hleft'
      refine ((matches_terminator hs true).optional hrest hle hle').bind
        fun ended last ended' last' hend hend' hended hlast => ?_
      cases hended with
      | none => exact .of_some (read_pure ..) (read_pure ..) (.cons htree .nil) hlast
      | some _ =>
        have hsuffix := (suffix_of_read hend).length_le
        refine (ih last.length (by omega) rfl hlast ((byteLength_le_of_read hend).trans_lt hle)
          ((byteLength_le_of_read hend').trans_lt hle')).bind fun _ _ _ _ _ _ hmore hstop => ?_
        exact .of_some (read_pure ..) (read_pure ..) (.cons htree hmore) hstop

theorem matches_caseBody :
    s.Matches bounds (List.Forall₂ s.Similar) (caseBody rules) (caseBody rules') :=
  (matches_symbol hs (by decide)).bind fun _ _ _ => agree_statements hs h true

theorem matches_block :
    s.Matches (including bounds) s.Similar (block rules) (block rules') :=
  matches_noded hs rfl ((matches_symbol hs (by decide)).bind_advancing (advances_symbol (by decide))
    (advances_symbol (by decide)) (fun _ _ _ => (agree_statements hs h false).bind fun _ _ htrees =>
      (matches_symbol hs (by decide) true).bind fun _ _ _ => agree_pure htrees) false)

theorem matches_cases {case case' : Parser Tree} (hcase : s.Matches bounds s.Similar case case')
    (hadvances : case.Advances) (hadvances' : case'.Advances) :
    s.Matches bounds (List.Forall₂ s.Similar) (cases rules case) (cases rules' case') := by
  have hdefault : s.Matches bounds s.Similar
      (noded .statement do
        keyword "default"
        caseBody rules)
      (noded .statement do
        keyword "default"
        caseBody rules') :=
    matches_noded hs rfl
      ((matches_keyword hs _).bind (fun _ _ _ => matches_caseBody hs h true) false)
  have hdefaults : ∀ f, (noded .statement (keyword "default" >>= f)).Advances :=
    fun f => advances_noded _ ((advances_keyword _).bind _)
  exact (matches_symbol hs (by decide)).bind fun _ _ _ =>
    (Agree.many ((hcase true).orElse (hdefault true)) (hadvances.orElse (hdefaults _))
      (hadvances'.orElse (hdefaults _))).bind fun _ _ htrees =>
        (matches_symbol hs (by decide) true).bind fun _ _ _ => agree_pure htrees

theorem matches_expressionCase :
    s.Matches bounds s.Similar (expressionCase rules) (expressionCase rules') :=
  matches_noded hs rfl ((matches_keyword hs _).bind (fun _ _ _ =>
    (matches_expressions hs h .bracketed true).bind fun _ _ hvalues =>
      (matches_caseBody hs h true).bind fun _ _ htrees =>
        agree_pure (List.rel_append hvalues htrees)) false)

theorem matches_typeCase : s.Matches bounds s.Similar (typeCase rules) (typeCase rules') := by
  have htypes : s.Matches bounds s.Similar
      (noded .typeList (listedLoosely (rules (.type false))))
      (noded .typeList (listedLoosely (rules' (.type false)))) :=
    matches_noded hs rfl
      (matches_listedLoosely hs (h.part _) (h.advances _) (h.advances' _) false)
  exact matches_noded hs rfl ((matches_keyword hs _).bind (fun _ _ _ => (htypes true).bind
    fun _ _ htypes => (matches_caseBody hs h true).bind fun _ _ htrees =>
      agree_pure (.cons htypes htrees)) false)

theorem matches_communicationCase :
    s.Matches bounds s.Similar (communicationCase rules) (communicationCase rules') := by
  refine matches_noded hs rfl ((matches_keyword hs _).bind (fun _ _ _ =>
    (matches_expression (h.part _) true).bind fun first first' hfirst =>
      (agree_moreOperands hs h .assigned).bind fun others others' hothers => ?_) false)
  dsimp only
  rw [isEmpty_congr hothers]
  have hvalue := matches_expression (h.part (.operand .bracketed)) true
  refine Agree.bind (Agree.orElse ?_ (Agree.orElse ?_ ?_)) fun _ _ hvalues =>
    (matches_caseBody hs h true).bind fun _ _ htrees => agree_pure (List.rel_append hvalues htrees)
  · exact ((matches_symbol hs (by decide) true).orElse (matches_symbol hs (by decide) true)).bind
      fun _ _ _ => hvalue.bind fun _ _ hvalue =>
        agree_pure (List.rel_append (.cons hfirst hothers) (.cons hvalue .nil))
  · exact (agree_require rfl).bind fun _ _ _ => (matches_symbol hs (by decide) true).bind
      fun _ _ _ => hvalue.bind fun _ _ hvalue => agree_pure (.cons hfirst (.cons hvalue .nil))
  · exact (agree_require rfl).bind fun _ _ _ => agree_pure (.cons hfirst .nil)

/-- What stands behind the block of an `if` statement. -/
theorem agree_otherwise (inCase : Bool) {trees trees' : List Tree}
    (htrees : List.Forall₂ s.Similar trees trees') :
    s.Agree bounds true true (List.Forall₂ s.Similar)
      (do
        let body ← rules .block
        let other ←
          if word? (← ahead true) == some "else" then
            keyword "else"
            if ← isAhead false openBrace then pure [← rules .block]
            else
              require (word? (← ahead false) == some "if")
              pure [← rules (.statement inCase)]
          else pure []
        requireEnd inCase
        return trees ++ body :: other)
      (do
        let body ← rules' .block
        let other ←
          if word? (← ahead true) == some "else" then
            keyword "else"
            if ← isAhead false openBrace then pure [← rules' .block]
            else
              require (word? (← ahead false) == some "if")
              pure [← rules' (.statement inCase)]
          else pure []
        requireEnd inCase
        return trees' ++ body :: other) := by
  refine (h.part _ true).bind fun body body' hbody => agree_ahead_bind hs fun cs cs' hahead => ?_
  have hend : ∀ other other', List.Forall₂ s.Similar other other' →
      s.Agree bounds true true (List.Forall₂ s.Similar)
        (do
          requireEnd inCase
          return trees ++ body :: other)
        (do
          requireEnd inCase
          return trees' ++ body' :: other') :=
    fun _ _ hother => (agree_requireEnd hs inCase).bind fun _ _ _ =>
      agree_pure (List.rel_append htrees (.cons hbody hother))
  rw [hahead.word?]
  refine Agree.ite (fun _ => (matches_keyword hs _ true).bind fun _ _ _ =>
    (agree_isAhead hs (by decide)).bind ?_) fun _ => (agree_pure .nil).bind hend
  rintro brace _ rfl
  refine Agree.ite (fun _ => (h.part _ true).bind fun _ _ hother =>
    (agree_pure (.cons hother .nil)).bind hend) fun _ =>
      agree_ahead_bind hs fun cs cs' hahead => ?_
  rw [hahead.word?]
  exact (agree_require rfl).bind fun _ _ _ => (h.part _ true).bind fun _ _ hother =>
    (agree_pure (.cons hother .nil)).bind hend

end

/-! ## Statements -/

section

variable {rank : Nat} (hs : s.Between) (h : s.RankedMatch bounds rank rules rules')
  (hrank : 2 < rank)

include hs h hrank

theorem matches_keywordStatement (inCase : Bool) (word : String) :
    Option.Rel (s.Matches (including bounds) s.Similar) (keywordStatement rules inCase word)
      (keywordStatement rules' inCase word) := by
  have hrules := h.toRulesMatch
  have hrule : ∀ {body body' : Parser (List Tree)},
      s.Agree bounds true true (List.Forall₂ s.Similar) body body' →
        Option.Rel (s.Matches (including bounds) s.Similar)
          (some (noded .statement (keyword word *> body)))
          (some (noded .statement (keyword word *> body'))) :=
    fun hbody => .some (matches_noded hs rfl ((matches_keyword hs word).bind_advancing
      (advances_keyword word) (advances_keyword word) (fun _ _ _ => hbody) false))
  unfold keywordStatement
  split
  · exact .some (matches_declaration hs _ (matches_constantSpec hs hrules) advances_constantSpec
      advances_constantSpec)
  · exact .some (matches_declaration hs _ (matches_variableSpec hs hrules) advances_variableSpec
      advances_variableSpec)
  · exact .some (matches_declaration hs _ (matches_typeSpec hs hrules) advances_typeSpec
      advances_typeSpec)
  · refine hrule (agree_ahead_bind hs fun cs cs' hahead => ?_)
    rw [hahead.endsStatement]
    exact Agree.ite (fun _ => agree_pure .nil) fun _ => matches_expressions hs hrules .line true
  · exact hrule ((matches_expression (h.part _) true).bind fun _ _ hcall =>
      agree_pure (.cons hcall .nil))
  · exact hrule ((matches_expression (h.part _) true).bind fun _ _ hcall =>
      agree_pure (.cons hcall .nil))
  · exact hrule (agree_headed (fun literals => matches_ifHeader hs h hrank literals true)
      fun _ _ htrees => agree_otherwise hs hrules inCase htrees)
  · exact hrule (agree_headed (agree_forHeader hs h hrank) fun _ _ htrees =>
      (h.part _ true).bind fun _ _ hbody => (agree_requireEnd hs inCase).bind fun _ _ _ =>
        agree_pure (List.rel_append htrees (.cons hbody .nil)))
  · refine hrule (agree_headed (agree_switchHeader hs h hrank) ?_)
    rintro ⟨_, trees⟩ ⟨guarded, trees'⟩ ⟨rfl, htrees⟩
    have hcase : s.Matches bounds s.Similar
        (if guarded then typeCase rules else expressionCase rules)
        (if guarded then typeCase rules' else expressionCase rules') := fun before =>
      Agree.ite (fun _ => matches_typeCase hs hrules before) fun _ =>
        matches_expressionCase hs hrules before
    have hadvances : ∀ rules : Rules,
        (if guarded then typeCase rules else expressionCase rules).Advances := fun _ =>
      Advances.ite (advances_noded _ ((advances_keyword _).bind _))
        (advances_noded _ ((advances_keyword _).bind _))
    exact (matches_cases hs hrules hcase (hadvances _) (hadvances _) true).bind fun _ _ hbody =>
      (agree_requireEnd hs inCase).bind fun _ _ _ => agree_pure (List.rel_append htrees hbody)
  · have hadvances : ∀ rules : Rules, (communicationCase rules).Advances := fun _ =>
      advances_noded _ ((advances_keyword _).bind _)
    exact hrule (matches_cases hs hrules (matches_communicationCase hs hrules) (hadvances _)
      (hadvances _) true)
  · exact hrule (agree_pure .nil)
  · exact hrule (agree_targetLabel hs inCase)
  · exact hrule (agree_targetLabel hs inCase)
  · exact hrule ((matches_name hs true).bind fun _ _ hname => agree_pure (.cons hname.1 .nil))
  · exact .none

/-- A statement that no keyword begins: a labeled one, or else a simple one. -/
def unkeyed (rules : Rules) (inCase : Bool) : Parser Tree :=
  (noded .statement do
    let tree ← label
    return [tree, ← rules (.statement inCase)]) <|> noded .statement do
      let (_, trees) ← simpleStatement rules .opening .line
      return trees

theorem matches_unkeyed (inCase : Bool) :
    s.Matches (including bounds) s.Similar (unkeyed rules inCase) (unkeyed rules' inCase) := by
  refine Matches.orElse (matches_noded hs rfl ?_) (matches_noded hs rfl ?_)
  · exact (matches_label hs).bind_advancing advances_label advances_label
      (fun _ _ hlabel => (h.part _ true).bind fun _ _ htree =>
        agree_pure (.cons hlabel (.cons htree .nil))) false
  · exact (matches_simpleStatement hs h hrank _ _).bind (fun _ _ htrees => agree_pure htrees.2)
      false

/-- A statement that no sign begins: the one its keyword stands for, or else one with none. -/
def wordStatement (rules : Rules) (inCase : Bool) (word : Option String) : Parser Tree :=
  match word.bind (keywordStatement rules inCase) with
  | some rule => rule
  | none => unkeyed rules inCase

theorem matches_wordStatement (inCase : Bool) (word : Option String) :
    s.Matches (including bounds) s.Similar (wordStatement rules inCase word)
      (wordStatement rules' inCase word) := by
  have hunkeyed := matches_unkeyed hs h hrank inCase
  cases word with
  | none => exact hunkeyed
  | some word =>
    have hrules := matches_keywordStatement hs h hrank inCase word
    rw [wordStatement, wordStatement, Option.bind_some, Option.bind_some]
    generalize keywordStatement rules inCase word = rule at hrules
    generalize keywordStatement rules' inCase word = rule' at hrules
    cases hrules with
    | none => exact hunkeyed
    | some hrule => exact hrule

theorem matches_statement (inCase : Bool) :
    s.Matches (including bounds) s.Similar (statement rules inCase) (statement rules' inCase) := by
  intro before
  refine agree_ahead_bind hs fun cs cs' hahead => ?_
  have hhead := hahead.head?
  split
  · obtain ⟨tail', rfl⟩ := exists_cons_of_head? hhead
    exact h.same .block (Nat.zero_lt_of_lt hrank) before
  · obtain ⟨tail', rfl⟩ := exists_cons_of_head? hhead
    exact matches_noded hs rfl ((matches_symbol hs (by decide)).bind
      (fun _ _ _ => agree_pure .nil) false) before
  · rename_i hbrace hsemicolon
    refine (matches_wordStatement hs h hrank inCase (word? cs) before).congr_right ?_
    rw [← hahead.word?]
    split
    · exact (hahead.not_cons hbrace _ rfl).elim
    · exact (hahead.not_cons hsemicolon _ rfl).elim
    · rfl

end

/-- **Every rule of the grammar agrees on the two texts** where the rules for the parts do. -/
theorem matches_step (hs : s.Between) (goal : Goal)
    (h : s.RankedMatch bounds goal.rank rules rules') :
    s.Matches (including bounds) s.Similar (step rules goal) (step rules' goal) := by
  have hrules := h.toRulesMatch
  cases goal with
  | type newlineEnds => exact matches_type hs hrules newlineEnds
  | operand ctx => exact matches_operand hs h ctx (Nat.lt_succ_self 1)
  | unary ctx behindStar => exact matches_unary hs h (Nat.lt_succ_self 0) ctx behindStar
  | literalBody => exact matches_literalBody hs hrules
  | block => exact matches_block hs hrules
  | statement inCase => exact matches_statement hs h (Nat.lt_succ_self 2) inCase

end Seam

end PinnedImports.Go
