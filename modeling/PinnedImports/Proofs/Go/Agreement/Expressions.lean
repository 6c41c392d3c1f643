import PinnedImports.Proofs.Go.Agreement.Types

/-!
# Expressions on two texts

The rules for operands agree on the two texts of a seam where the rules for the parts do.
-/

set_option autoImplicit false

namespace PinnedImports.Go

open PinnedImports.Go.Parser PinnedImports.Go.Grammar

namespace Seam

variable {s : Seam} {bounds : Nat × Nat} {rules rules' : Rules}

/-! ## What is asked of trees and of the characters ahead -/

theorem Similar.opensLiteral {tree tree' : Tree} (h : s.Similar tree tree') (ctx : Context) :
    Grammar.opensLiteral ctx tree' = Grammar.opensLiteral ctx tree := by
  have hkind := h.kind
  rw [Grammar.opensLiteral, Grammar.opensLiteral, h.isType]
  generalize tree.kind = kind at hkind
  generalize tree'.kind = kind' at hkind
  cases hkind <;> rfl

theorem Similar.isCallable {tree tree' : Tree} (h : s.Similar tree tree') :
    Grammar.isCallable tree' = Grammar.isCallable tree := by
  have hkind := h.kind
  rw [Grammar.isCallable, Grammar.isCallable, h.isValue]
  generalize tree.kind = kind at hkind
  generalize tree'.kind = kind' at hkind
  cases hkind <;> rfl

theorem indexReadings_congr {tree tree' : Tree} (h : s.Similar tree tree')
    {items items' : List Tree} (hitems : List.Forall₂ s.Similar items items') (comma : Bool) :
    indexReadings tree' items' comma = indexReadings tree items comma := by
  have hname : (tree'.kind = .name) = (tree.kind = .name) := propext h.kind_eq_name
  rw [indexReadings, indexReadings, h.isValue, h.isType, h.isQualified, hitems.length_eq,
    all_congr Similar.isElement hitems, all_congr Similar.isValue hitems,
    all_congr Similar.isType hitems]
  simp only [hname]

/-- Brackets that are read at all hold elements, or a single expression. -/
theorem elements_of_indexReadings {tree : Tree} {items : List Tree} {comma value type : Bool}
    (h : indexReadings tree items comma = some (value, type)) :
    items.all Tree.isElement = true ∨ (items.length = 1 ∧ items.all Tree.isValue = true) := by
  have htypes : items.all Tree.isType = true → items.all Tree.isElement = true := by
    rw [List.all_eq_true, List.all_eq_true]
    exact fun hall item hitem => isElement_of_isType (hall item hitem)
  rw [indexReadings] at h
  split at h
  · rename_i hread
    simp only [Bool.or_eq_true, Bool.and_eq_true, beq_iff_eq] at hread
    tauto
  · simp at h

/-- What brackets are behind of and hold, where they can be read as a type. -/
theorem forall_isElement_of_indexReadings {tree : Tree} {items : List Tree} {comma value : Bool}
    (h : indexReadings tree items comma = some (value, true)) :
    tree.isElement = true ∧ ∀ item ∈ items, item.isElement = true := by
  rw [indexReadings] at h
  split at h
  · rw [Option.some.injEq, Prod.mk.injEq] at h
    have htype := h.2
    rw [Bool.and_eq_true, Bool.or_eq_true, decide_eq_true_eq, List.all_eq_true] at htype
    refine ⟨isElement_of_isType ?_, htype.2⟩
    obtain ⟨kind, start, stop, children⟩ := tree
    rcases htype.1 with hname | hqualified
    · obtain rfl : kind = .name := hname
      rfl
    · cases kind <;> first | exact hqualified | simp [Tree.isQualified] at hqualified
  · simp at h

theorem forall₂_allAsTypes {trees trees' : List Tree} (h : List.Forall₂ s.Similar trees trees')
    (helements : ∀ tree ∈ trees, tree.isElement = true) :
    List.Forall₂ s.Similar (Tree.allAsTypes trees) (Tree.allAsTypes trees') :=
  similarAll_iff.1 ((similarAll_iff.2 h).allAsTypes helements)

theorem Similar.asFunction {tree tree' : Tree} (h : s.Similar tree tree') :
    s.Similar (Grammar.asFunction tree) (Grammar.asFunction tree') := by
  obtain ⟨kind, start, stop, children⟩ := tree
  obtain ⟨kind', start', stop', children'⟩ := tree'
  have hparts := h
  rw [Similar] at hparts
  obtain ⟨hkind, -, htypes, hchildren⟩ := hparts
  rw [similarAll_iff] at hchildren
  cases hkind with
  | pointer => exact h
  | dereference => exact h
  | same =>
    cases kind
    case index value type =>
      cases hchildren with
      | nil => exact h
      | @cons operand operand' items items' hoperand hitems =>
        rw [Grammar.asFunction, Grammar.asFunction, all_congr Similar.isType hitems]
        by_cases hall : items.all Tree.isType = true
        · have helements : ∀ item ∈ items, item.isElement = true := fun item hitem =>
            isElement_of_isType (List.all_eq_true.1 hall item hitem)
          rw [if_pos hall, if_pos hall]
          refine similar_node (.same (.index value type)) (by simp) ?_
            (.cons hoperand (forall₂_allAsTypes hitems helements)) ..
          cases type with
          | true =>
            exact List.forall_mem_cons.2
              ⟨htypes operand (List.mem_cons_self ..), forall_isElement_allAsTypes helements⟩
          | false => trivial
        · rw [if_neg hall, if_neg hall]
          exact h
    all_goals exact h

theorem asType_of_implicitArrayType {tree : Tree} (h : tree.kind = .implicitArrayType) :
    tree.asType = tree := by
  obtain ⟨kind, start, stop, children⟩ := tree
  obtain rfl : kind = .implicitArrayType := h
  rfl

/-- What opens a literal is a type, but for an array type without a length. -/
theorem isType_of_opensLiteral {ctx : Context} {tree : Tree}
    (h : Grammar.opensLiteral ctx tree = true) (hkind : tree.kind ≠ .implicitArrayType) :
    tree.isType = true := by
  obtain ⟨kind, start, stop, children⟩ := tree
  cases kind <;> simp_all [Grammar.opensLiteral, Tree.kind, Tree.isType]

theorem Similar.asType_of_opensLiteral {ctx : Context} {tree tree' : Tree}
    (h : s.Similar tree tree') (hopens : Grammar.opensLiteral ctx tree = true) :
    s.Similar tree.asType tree'.asType := by
  by_cases hkind : tree.kind = .implicitArrayType
  · have hkind' : tree'.kind = .implicitArrayType := (h.kind.eq_iff (by simp) (by simp)).2 hkind
    rw [asType_of_implicitArrayType hkind, asType_of_implicitArrayType hkind']
    exact h
  · exact h.asType (isElement_of_isType (isType_of_opensLiteral hopens hkind))

/-- The node of brackets behind a tree. -/
theorem similar_index {tree tree' first first' : Tree} {others others' : List Tree}
    (htree : s.Similar tree tree') (hfirst : s.Similar first first')
    (hothers : List.Forall₂ s.Similar others others') {comma value type : Bool}
    (hread : indexReadings tree (first :: others) comma = some (value, type))
    {start stop start' stop' : Nat} :
    s.Similar
      (.node (.index value type) start stop (tree ::
        if first.isValue && others.isEmpty then [first] else Tree.allAsTypes (first :: others)))
      (.node (.index value type) start' stop' (tree' ::
        if first'.isValue && others'.isEmpty then [first']
        else Tree.allAsTypes (first' :: others'))) := by
  have hitems := List.Forall₂.cons hfirst hothers
  rw [hfirst.isValue, isEmpty_congr hothers]
  by_cases hsingle : (first.isValue && others.isEmpty) = true
  · rw [if_pos hsingle, if_pos hsingle]
    rw [Bool.and_eq_true, List.isEmpty_iff] at hsingle
    refine similar_node (.same (.index value type)) (by simp) ?_
      (.cons htree (.cons hfirst .nil)) ..
    cases type with
    | true =>
      obtain ⟨htree, helements⟩ := forall_isElement_of_indexReadings hread
      rw [hsingle.2] at helements
      exact List.forall_mem_cons.2 ⟨htree, helements⟩
    | false => trivial
  · rw [if_neg hsingle, if_neg hsingle]
    -- Not a single expression, so the items are elements.
    have helements : ∀ item ∈ first :: others, item.isElement = true := by
      rcases elements_of_indexReadings hread with hall | ⟨hlength, hall⟩
      · exact List.all_eq_true.1 hall
      · refine absurd ?_ hsingle
        rw [List.length_cons, Nat.add_eq_right] at hlength
        rw [List.all_cons, Bool.and_eq_true] at hall
        rw [hall.1, List.eq_nil_of_length_eq_zero hlength]
        rfl
    refine similar_node (.same (.index value type)) (by simp) ?_
      (.cons htree (forall₂_allAsTypes hitems helements)) ..
    cases type with
    | true =>
      exact List.forall_mem_cons.2 ⟨(forall_isElement_of_indexReadings hread).1,
        forall_isElement_allAsTypes helements⟩
    | false => trivial

/-- A sign of one character ahead, and what follows it. -/
theorem Ahead.tail {c : Char} {rest cs' : List Char} (h : s.Ahead (c :: rest) cs')
    (hsign : [c] ∈ signs) : ∃ rest', cs' = c :: rest' ∧ s.Like true rest rest' := by
  obtain ⟨rest', rfl⟩ := exists_cons_of_head? h.head?
  have hdrop := h.drop_sign hsign (by simp [List.isPrefixOf])
  exact ⟨rest', rfl, hdrop⟩

theorem Ahead.nil {cs' : List Char} (h : s.Ahead [] cs') : cs' = [] :=
  List.isEmpty_iff.1 h.isEmpty

theorem guardAhead_of_ne {c : Char} (hc : c ≠ '.') (rest : List Char) :
    Grammar.guardAhead (c :: rest) = false := by
  rw [Grammar.guardAhead]
  rintro tail heq
  exact hc (List.cons.inj heq).1

theorem Ahead.guardAhead (hs : s.Between) {cs cs' : List Char} (h : s.Ahead cs cs') :
    Grammar.guardAhead cs' = Grammar.guardAhead cs := by
  cases cs with
  | nil => rw [h.nil]
  | cons c rest =>
    by_cases hdot : c = '.'
    · subst hdot
      obtain ⟨rest', rfl, hrest⟩ := h.tail (by decide)
      have hinner := hrest.ahead hs false
      rw [Grammar.guardAhead, Grammar.guardAhead]
      generalize afterGap false rest = inner at hinner ⊢
      generalize afterGap false rest' = inner' at hinner ⊢
      cases inner with
      | nil => rw [hinner.nil]
      | cons d tail =>
        by_cases hparenthesis : d = '('
        · subst hparenthesis
          obtain ⟨tail', rfl, htail⟩ := hinner.tail (by decide)
          simp only [(htail.ahead hs false).word?]
        · obtain ⟨tail', rfl⟩ := exists_cons_of_head? hinner.head?
          simp [hparenthesis]
    · obtain ⟨rest', rfl⟩ := exists_cons_of_head? h.head?
      rw [guardAhead_of_ne hdot, guardAhead_of_ne hdot]

theorem Ahead.binaryOperator? {cs cs' : List Char} (h : s.Ahead cs cs') (follow : Follow) :
    follow.binaryOperator? cs' = follow.binaryOperator? cs := by
  rw [Follow.binaryOperator?, Follow.binaryOperator?, h.operator? (operators_mem_signs follow)]

/-! ## Calls, literals and words -/

section

variable (hs : s.Between) (h : s.RulesMatch bounds rules rules')

omit hs in
theorem matches_expression {ctx : Context}
    (hoperand : s.Matches bounds s.Similar (rules (.operand ctx)) (rules' (.operand ctx))) :
    s.Matches bounds s.Similar (expression rules ctx) (expression rules' ctx) :=
  hoperand.bind fun _ _ htree => (agree_require htree.isValue).bind fun _ _ _ => agree_pure htree

include hs h

theorem matches_expressions (ctx : Context) :
    s.Matches bounds (List.Forall₂ s.Similar) (expressions rules ctx) (expressions rules' ctx) :=
  matches_listed hs (matches_expression (h.part _)) (advances_expression h.advances _)
    (advances_expression h.advances' _)

theorem matches_callArguments :
    s.Matches bounds (List.Forall₂ s.Similar) (callArguments rules) (callArguments rules') := by
  have hargument : s.Matches bounds s.Similar
      (do
        let argument ← expression rules .bracketed
        let _ ← Parser.optional (symbol "...")
        return argument)
      (do
        let argument ← expression rules' .bracketed
        let _ ← Parser.optional (symbol "...")
        return argument) :=
    (matches_expression (h.part _)).bind fun _ _ hargument =>
      (Agree.optional (matches_symbol hs (by decide) true)).bind fun _ _ _ => agree_pure hargument
  have harguments := (matches_listedLoosely hs hargument ((advances_expression h.advances _).bind _)
    ((advances_expression h.advances' _).bind _) true).orElse (agree_pure .nil)
  exact (matches_symbol hs (by decide)).bind fun _ _ _ => harguments.bind fun _ _ harguments =>
    (matches_symbol hs (by decide) true).bind fun _ _ _ => agree_pure harguments

/-- More operands behind commas. -/
theorem agree_moreOperands (ctx : Context) :
    s.Agree bounds true true (List.Forall₂ s.Similar) (many (symbol "," *> expression rules ctx))
      (many (symbol "," *> expression rules' ctx)) :=
  Agree.many
    ((matches_symbol hs (by decide) true).seqRight (matches_expression (h.part _) true))
    ((advances_symbol (by decide)).seqRight _) ((advances_symbol (by decide)).seqRight _)

theorem matches_allocatorArguments :
    s.Matches bounds (List.Forall₂ s.Similar) (allocatorArguments rules)
      (allocatorArguments rules') := by
  have hcomma : s.Agree bounds true true (Option.Rel Any) (Parser.optional (symbol ","))
      (Parser.optional (symbol ",")) := Agree.optional (matches_symbol hs (by decide) true)
  have harguments := ((h.part (.type false) true).bind fun _ _ htype =>
    (agree_moreOperands hs h .bracketed).bind fun _ _ hothers =>
      hcomma.bind fun _ _ _ =>
        agree_pure (List.Forall₂.cons htype hothers)).orElse (agree_pure .nil)
  exact (matches_symbol hs (by decide)).bind fun _ _ _ => harguments.bind fun _ _ harguments =>
    (matches_symbol hs (by decide) true).bind fun _ _ _ => agree_pure harguments

theorem matches_literalBody :
    s.Matches (including bounds) s.Similar (literalBody rules) (literalBody rules') := by
  have helement : s.Matches bounds s.Similar
      (do
        if ← isAhead false openBrace then rules .literalBody else expression rules .bracketed)
      (do
        if ← isAhead false openBrace then rules' .literalBody
        else expression rules' .bracketed) := by
    intro before
    refine (agree_isAhead hs (by decide)).bind ?_
    rintro brace _ rfl
    exact Agree.ite (fun _ => h.part _ before) fun _ => matches_expression (h.part _) before
  have hadvances : ∀ {rules : Rules}, AllAdvance rules → (do
      if ← isAhead false openBrace then rules .literalBody else expression rules .bracketed
        : Parser Tree).Advances :=
    fun hrules => Advances.bind_right fun _ => (hrules _).ite (advances_expression hrules _)
  refine matches_noded hs rfl ((matches_symbol hs (by decide)).bind_advancing
    (advances_symbol (by decide)) (advances_symbol (by decide)) (fun _ _ _ => ?_) false)
  refine (agree_listedOrComma hs (R := List.Forall₂ s.Similar) ?_ ((hadvances h.advances).bind _)
    ((hadvances h.advances').bind _)).bind fun _ _ hentries =>
      (matches_symbol hs (by decide) true).bind fun _ _ _ => agree_pure (List.rel_flatten hentries)
  refine helement.bind fun first first' hfirst => (agree_isAhead hs (by decide)).bind ?_
  rintro colon _ rfl
  exact Agree.ite
    (fun _ => (matches_symbol hs (by decide) true).bind fun _ _ _ => (helement true).bind
      fun _ _ hvalue => agree_pure (.cons hfirst (.cons hvalue .nil)))
    fun _ => agree_pure (.cons hfirst .nil)

theorem matches_functionOperand :
    s.Matches (including bounds) s.Similar (functionOperand rules) (functionOperand rules') := by
  refine matches_spanned hs ((matches_keyword hs _).bind_advancing (advances_keyword _)
    (advances_keyword _) (fun _ _ _ => ?_) false)
  refine (matches_signature hs h false true).bind fun parts parts' hparts =>
    (agree_isAhead hs (by decide)).bind ?_
  rintro brace _ rfl
  exact Agree.ite
    (fun _ => (h.part _ true).bind fun _ _ hbody =>
      agree_pure (sameParts rfl (List.rel_append hparts (.cons hbody .nil))))
    fun _ => agree_pure (sameParts rfl hparts)

/-! ## What goes on with a tree -/

theorem agree_sliceBounds :
    s.Matches bounds (List.Forall₂ s.Similar) (sliceBounds rules) (sliceBounds rules') := by
  refine (matches_symbol hs (by decide)).bind fun _ _ _ => (agree_isAhead hs (by decide)).bind ?_
  rintro bracket _ rfl
  refine Agree.ite (fun _ => agree_pure .nil) fun _ =>
    (matches_expression (h.part _) true).bind fun high high' hhigh =>
      (agree_isAhead hs (by decide)).bind ?_
  rintro colon _ rfl
  exact Agree.ite
    (fun _ => (matches_symbol hs (by decide) true).bind fun _ _ _ =>
      (matches_expression (h.part _) true).bind fun _ _ hmax =>
        agree_pure (.cons hhigh (.cons hmax .nil)))
    fun _ => agree_pure (.cons hhigh .nil)

theorem matches_brackets {tree tree' : Tree} (htree : s.Similar tree tree') :
    s.Matches bounds s.Similar (brackets rules tree) (brackets rules' tree') := by
  have hsliced : ∀ low low', List.Forall₂ s.Similar low low' → s.Agree bounds true true s.Similar
      (do
        require tree.isValue
        let bounds ← sliceBounds rules
        symbol "]"
        return .node .slice tree.start (← left) (tree :: low ++ bounds))
      (do
        require tree'.isValue
        let bounds ← sliceBounds rules'
        symbol "]"
        return .node .slice tree'.start (← left) (tree' :: low' ++ bounds)) :=
    fun low low' hlow => (agree_require htree.isValue).bind fun _ _ _ =>
      (agree_sliceBounds hs h true).bind fun _ _ hbounds =>
        (matches_symbol hs (by decide) true).bind fun _ _ _ => agree_left.bind fun _ _ _ =>
          agree_pure (similar_plain rfl (.cons htree (List.rel_append hlow hbounds)))
  refine (matches_symbol hs (by decide)).bind fun _ _ _ => (agree_isAhead hs (by decide)).bind ?_
  rintro colon _ rfl
  refine Agree.ite (fun _ => hsliced _ _ .nil) fun _ => (h.part _ true).bind
    fun first first' hfirst => (agree_isAhead hs (by decide)).bind ?_
  rintro colon' _ rfl
  refine Agree.ite
    (fun _ => (agree_require hfirst.isValue).bind fun _ _ _ => hsliced _ _ (.cons hfirst .nil))
    fun _ => ?_
  have hothers : s.Agree bounds true true (List.Forall₂ s.Similar)
      (many (symbol "," *> rules (.operand .bracketed)))
      (many (symbol "," *> rules' (.operand .bracketed))) :=
    Agree.many ((matches_symbol hs (by decide) true).seqRight (h.part _ true))
      ((advances_symbol (by decide)).seqRight _) ((advances_symbol (by decide)).seqRight _)
  refine hothers.bind fun others others' hothers =>
    (Agree.optional (matches_symbol hs (by decide) true)).bind fun comma comma' hcomma =>
      (matches_symbol hs (by decide) true).bind fun _ _ _ => ?_
  have hsome : comma'.isSome = comma.isSome := by cases hcomma <;> rfl
  rw [hsome, indexReadings_congr htree (.cons hfirst hothers)]
  split
  · exact agree_failure
  · rename_i hread
    exact agree_left.bind fun _ _ _ => agree_pure (similar_index htree hfirst hothers hread)

theorem agree_continuation (ctx : Context) {tree tree' : Tree} (htree : s.Similar tree tree') :
    s.Agree bounds true true (Option.Rel s.Similar) (continuation rules ctx tree)
      (continuation rules' ctx tree') := by
  rw [continuation, continuation, htree.isValue]
  refine agree_ahead_bind hs fun cs cs' hahead => ?_
  have hhead := hahead.head?
  split
  · -- A dot.
    rename_i rest
    obtain ⟨rest', rfl, -⟩ := hahead.tail (by decide)
    have hdots : ['.', '.'].isPrefixOf rest' = ['.', '.'].isPrefixOf rest := by
      have hfront := hahead.isPrefixOf (show "...".toList ∈ signs by decide)
      simpa [List.isPrefixOf] using hfront
    simp only [hdots, hahead.guardAhead hs]
    refine Agree.ite (fun _ => agree_pure .none) fun _ =>
      (matches_symbol hs (by decide) true).bind fun _ _ _ => (agree_isAhead hs (by decide)).bind ?_
    rintro parenthesis _ rfl
    refine Agree.ite (fun _ => ?_) fun _ => ?_
    · exact (matches_symbol hs (by decide) true).bind fun _ _ _ => (h.part _ true).bind
        fun _ _ htype => (matches_symbol hs (by decide) true).bind fun _ _ _ => agree_left.bind
          fun _ _ _ => agree_pure (.some (similar_plain rfl (.cons htree (.cons htype .nil))))
    · exact (matches_name hs true).bind fun _ _ hmember => agree_left.bind fun _ _ _ =>
        agree_pure (.some (similar_plain rfl (.cons htree (.cons hmember.1 .nil))))
  · -- A bracket.
    obtain ⟨rest', rfl⟩ := exists_cons_of_head? hhead
    simp only [htree.isType]
    exact Agree.ite
      (fun _ => (matches_brackets hs h htree true).bind fun _ _ hmore => agree_pure (.some hmore))
      fun _ => agree_pure .none
  · -- A parenthesis.
    obtain ⟨rest', rfl⟩ := exists_cons_of_head? hhead
    simp only [htree.isType, htree.isCallable]
    refine Agree.ite (fun _ => ?_) fun _ => Agree.ite (fun htype => ?_) fun _ => agree_pure .none
    · exact (matches_callArguments hs h true).bind fun _ _ harguments => agree_left.bind
        fun _ _ _ => agree_pure (.some (similar_plain rfl (.cons htree.asFunction harguments)))
    · have hasType := htree.asType (isElement_of_isType htype)
      exact (matches_symbol hs (by decide) true).bind fun _ _ _ =>
        (matches_expression (h.part _) true).bind fun _ _ hconverted =>
          (Agree.optional (matches_symbol hs (by decide) true)).bind fun _ _ _ =>
            (matches_symbol hs (by decide) true).bind fun _ _ _ => agree_left.bind fun _ _ _ =>
              agree_pure (.some (similar_plain rfl (.cons hasType (.cons hconverted .nil))))
  · -- A brace.
    obtain ⟨rest', rfl⟩ := exists_cons_of_head? hhead
    simp only [htree.opensLiteral]
    refine Agree.ite (fun hopens => ?_) fun _ => agree_pure .none
    have hasType := htree.asType_of_opensLiteral hopens
    exact (h.part _ true).bind fun _ _ hbody => agree_left.bind fun _ _ _ =>
      agree_pure (.some (similar_plain rfl (.cons hasType (.cons hbody .nil))))
  · rename_i hdot hbracket hparenthesis hbrace
    have hnone : s.Agree bounds true true (Option.Rel s.Similar) (pure none : Parser (Option Tree))
      (pure none) := agree_pure .none
    refine hnone.congr_right ?_
    split
    · exact (hahead.not_cons hdot _ rfl).elim
    · exact (hahead.not_cons hbracket _ rfl).elim
    · exact (hahead.not_cons hparenthesis _ rfl).elim
    · exact (hahead.not_cons hbrace _ rfl).elim
    · rfl

/-- **What goes on with a tree is the same**, however often something does. -/
theorem agree_postfixed (ctx : Context) {tree tree' : Tree} (htree : s.Similar tree tree') :
    s.Agree bounds true true s.Similar (postfixed rules ctx tree) (postfixed rules' ctx tree') := by
  intro cs
  induction hlength : cs.length using Nat.strong_induction_on generalizing cs tree tree' with
  | _ n ih =>
    intro cs' hlike hleft hleft'
    rw [AgreeAt, read_postfixed h.advances, read_postfixed h.advances']
    refine (agree_continuation hs h ctx htree hlike hleft hleft').bind
      fun more rest more' rest' hread hread' hmore hrest => ?_
    cases hmore with
    | none => exact .of_some (read_pure ..) (read_pure ..) htree hrest
    | some hmore =>
      have hshorter := advances_continuation h.advances ctx tree hread
      exact ih rest.length (by omega) hmore rfl hrest
        ((byteLength_le_of_read hread).trans_lt hleft)
        ((byteLength_le_of_read hread').trans_lt hleft')

/-- **Operators and operands behind an operand are the same**, however many there are. -/
theorem agree_operationsAfter (ctx : Context) {last last' : Tree} (hlast : s.Similar last last') :
    s.Agree bounds true true
      (List.Forall₂ fun more more' => more'.1 = more.1 ∧ s.Similar more.2 more'.2)
      (operationsAfter rules ctx last) (operationsAfter rules' ctx last') := by
  intro cs
  induction hlength : cs.length using Nat.strong_induction_on generalizing cs last last' with
  | _ n ih =>
    intro cs' hlike hleft hleft'
    rw [AgreeAt, read_operationsAfter h.advances, read_operationsAfter h.advances']
    rw [operationThen, operationThen, hlast.isValue]
    refine agreeAt_ahead_bind ?_
    rw [(hlike.ahead hs _).binaryOperator?]
    split
    · exact .of_some (read_pure ..) (read_pure ..) .nil hlike
    · rename_i operator hoperator
      have hsign := sign_mem_lexemes (mem_signs_of_binaryOperator? hoperator)
      refine (matches_lexeme hs hsign true hlike hleft hleft').bind
        fun _ rest _ rest' hread hread' _ hrest => ?_
      have hle := byteLength_le_of_read hread
      have hle' := byteLength_le_of_read hread'
      have hshorter := (suffix_of_read hread).length_le
      refine (h.part _ true hrest (hle.trans_lt hleft) (hle'.trans_lt hleft')).bind
        fun next last next' last' hnext hnext' hsimilar hlast => ?_
      have hless := h.advances _ hnext
      refine (ih last.length (by omega) hsimilar rfl hlast
        (((byteLength_le_of_read hnext).trans hle).trans_lt hleft)
        (((byteLength_le_of_read hnext').trans hle').trans_lt hleft')).bind
          fun _ _ _ _ _ _ hmore hend => ?_
      exact .of_some (read_pure ..) (read_pure ..) (.cons ⟨rfl, hsimilar⟩ hmore) hend

theorem matches_prefixed (ctx : Context) (operator : String) (hsign : operator.toList ∈ signs)
    (hne : operator.toList ≠ []) :
    s.Matches (including bounds) s.Similar
      (noded .prefixed do
        symbol operator
        let operand ← rules (.unary ctx false)
        require operand.isValue
        return [operand])
      (noded .prefixed do
        symbol operator
        let operand ← rules' (.unary ctx false)
        require operand.isValue
        return [operand]) :=
  matches_noded hs rfl ((matches_symbol hs hsign).bind_advancing (advances_symbol hne)
    (advances_symbol hne) (fun _ _ _ => (h.part _ true).bind fun _ _ hoperand =>
      (agree_require hoperand.isValue).bind fun _ _ _ => agree_pure (.cons hoperand .nil)) false)

end

/-! ## Operands -/

/-- No type starts with a less-than sign that is not that of an arrow. -/
def NeedsArrow (rules : Rules) : Prop :=
  ∀ ⦃text : List Char⦄ ⦃newlineEnds : Bool⦄, (afterGap false text).head? = some '<' →
    ['<', '-'].isPrefixOf (afterGap false text) = false →
      (rules (.type newlineEnds)).read text = none

theorem read_noded_arrow {kind : Kind} {body : Parser (List Tree)} {text : List Char}
    (harrow : ['<', '-'].isPrefixOf (afterGap false text) = false) :
    (noded kind (symbol "<-" >>= fun _ => body)).read text = none := by
  have hsymbol : (symbol "<-").read (afterGap false text) = none := by
    rw [read_symbol, afterGap_idem, show "<-".toList = ['<', '-'] by decide,
      if_neg (Bool.eq_false_iff.1 harrow)]
  rw [noded, spanned, read_bind, read_gap, Option.bind_some, read_bind, read_left,
    Option.bind_some, read_bind, read_map, read_bind, hsymbol]
  rfl

theorem read_unary_of_less (harrows : NeedsArrow rules) {text rest : List Char} (ctx : Context)
    (behindStar : Bool) (hless : afterGap false text = '<' :: rest)
    (harrow : ['<', '-'].isPrefixOf ('<' :: rest) = false) :
    (unary rules ctx behindStar).read text = none := by
  have hprimary : (primary rules).read text = none := by
    rw [primary, read_bind, read_ahead, Option.bind_some, hless]
    exact harrows (by rw [hless]; rfl) (by rw [hless]; exact harrow)
  rw [unary, read_bind, read_ahead, Option.bind_some, hless]
  simp only
  split
  · rw [read_bind, hprimary, Option.bind_none]
  · exact read_noded_arrow (by rw [hless]; exact harrow)

theorem needsArrow_type (rules : Rules) {text : List Char} (newlineEnds : Bool)
    (hless : (afterGap false text).head? = some '<')
    (harrow : ['<', '-'].isPrefixOf (afterGap false text) = false) :
    (type rules newlineEnds).read text = none := by
  obtain ⟨rest, heq⟩ := List.head?_eq_some_iff.1 hless
  rw [type, read_bind, read_ahead, Option.bind_some, heq]
  exact read_noded_arrow harrow

/-- Rules for the parts that agree within the bounds, those of a lower rank also where they are
asked for at the place itself. -/
structure RankedMatch (s : Seam) (bounds : Nat × Nat) (rank : Nat) (rules rules' : Rules) : Prop
    extends s.RulesMatch bounds rules rules' where
  same : ∀ goal, goal.rank < rank →
    s.Matches (including bounds) s.Similar (rules goal) (rules' goal)
  arrow : NeedsArrow rules
  arrow' : NeedsArrow rules'

section

variable {rank : Nat} (hs : s.Between) (h : s.RankedMatch bounds rank rules rules')
  (hrank : 0 < rank)

include hs h hrank

/-- A type in brackets, where a bracket is ahead. -/
theorem agreeAt_bracketType {before : Bool} {cs cs' rest : List Char} (hlike : s.Like before cs cs')
    (hleft : Text.byteLength cs < (including bounds).1)
    (hleft' : Text.byteLength cs' < (including bounds).2)
    (hbracket : afterGap false cs = '[' :: rest) :
    s.AgreeAt true s.Similar (bracketType rules) (bracketType rules') cs cs' := by
  have hahead := hlike.ahead hs false
  rw [hbracket] at hahead
  obtain ⟨rest', hbracket', hrest⟩ := hahead.tail (by decide)
  refine agreeAt_ahead_bind ?_
  rw [hbracket, hbracket', List.tail_cons, List.tail_cons,
    (hrest.ahead hs false).isPrefixOf (by decide)]
  refine Agree.ite (fun _ => ?_) (fun _ => h.same (.type false) hrank before) hlike
    hleft hleft'
  exact matches_noded hs rfl ((matches_symbol hs (by decide)).bind_advancing
    (advances_symbol (by decide)) (advances_symbol (by decide)) (fun _ _ _ =>
      (matches_symbol hs (by decide) true).bind fun _ _ _ =>
        (matches_symbol hs (by decide) true).bind fun _ _ _ => (h.part _ true).bind
          fun _ _ htype => agree_pure (.cons htype .nil)) false) before

theorem matches_wordOperand (word : String) :
    s.Matches (including bounds) s.Similar (wordOperand rules word) (wordOperand rules' word) := by
  have hword : ∀ word : String, s.Agree (including bounds) false true (List.Forall₂ s.Similar)
      (do
        keyword word
        return [])
      (do
        keyword word
        return []) :=
    fun word => (matches_keyword hs word).bind (fun _ _ _ => agree_pure .nil) false
  have hallocation : ∀ word : String, s.Matches (including bounds) s.Similar
      (do
        let function ← noded .allocator (keyword word *> pure [])
        if ← isAhead false "(" then
          let arguments ← allocatorArguments rules
          return .node .call function.start (← left) (function :: arguments)
        return function)
      (do
        let function ← noded .allocator (keyword word *> pure [])
        if ← isAhead false "(" then
          let arguments ← allocatorArguments rules'
          return .node .call function.start (← left) (function :: arguments)
        return function) := by
    intro word
    have hadvances : (noded .allocator (keyword word *> pure [])).Advances :=
      advances_noded _ ((advances_keyword word).seqRight _)
    refine (matches_allocator hs word).bind_advancing hadvances hadvances
      fun function function' hfunction => (agree_isAhead hs (by decide)).bind ?_
    rintro parenthesis _ rfl
    exact Agree.ite
      (fun _ => (matches_allocatorArguments hs h.toRulesMatch true).bind fun _ _ harguments =>
        agree_left.bind fun _ _ _ => agree_pure (similar_plain rfl (.cons hfunction harguments)))
      fun _ => agree_pure hfunction
  unfold wordOperand
  split
  · exact matches_functionOperand hs h.toRulesMatch
  · exact h.same _ hrank
  · exact h.same _ hrank
  · exact h.same _ hrank
  · exact h.same _ hrank
  · exact matches_noded hs rfl (hword _)
  · exact matches_noded hs rfl (hword _)
  · exact matches_noded hs rfl (hword _)
  · exact matches_noded hs rfl (hword _)
  · exact hallocation _
  · exact hallocation _
  · exact fun before => (matches_name hs before).mono fun _ _ hname => hname.1

/-- An operand that no sign begins: what its word stands for, or else a literal. -/
def wordPrimary (rules : Rules) (word : Option String) : Parser Tree :=
  match word with
  | some word => wordOperand rules word
  | none => noded .literal do
    let _ ← lexeme (.longest [numberLength, runeLength, stringLength])
    return []

theorem matches_wordPrimary (word : Option String) :
    s.Matches (including bounds) s.Similar (wordPrimary rules word) (wordPrimary rules' word) := by
  cases word with
  | some word => exact matches_wordOperand hs h hrank word
  | none =>
    exact matches_noded hs rfl ((matches_lexeme hs literal_mem_lexemes).bind
      (fun _ _ _ => agree_pure .nil) false)

theorem matches_primary :
    s.Matches (including bounds) s.Similar (primary rules) (primary rules') := by
  intro before cs cs' hlike hleft hleft'
  have hahead := hlike.ahead hs false
  have hhead := hahead.head?
  refine agreeAt_ahead_bind ?_
  split
  · rename_i heq
    rw [heq] at hhead
    obtain ⟨tail', heq'⟩ := exists_cons_of_head? hhead
    rw [heq']
    refine matches_noded hs rfl ((matches_symbol hs (by decide)).bind_advancing
      (advances_symbol (by decide)) (advances_symbol (by decide)) (fun _ _ _ => ?_) false) before
      hlike hleft hleft'
    refine (h.part _ true).bind fun inner inner' hinner =>
      (matches_symbol hs (by decide) true).bind fun _ _ _ => ?_
    rw [hinner.isValue, hinner.isType]
    exact (agree_require rfl).bind fun _ _ _ => agree_pure (.cons hinner .nil)
  · rename_i heq
    rw [heq] at hhead
    obtain ⟨tail', heq'⟩ := exists_cons_of_head? hhead
    rw [heq']
    exact agreeAt_bracketType hs h hrank hlike hleft hleft' heq
  · rename_i heq
    rw [heq] at hhead
    obtain ⟨tail', heq'⟩ := exists_cons_of_head? hhead
    rw [heq']
    exact h.same (.type false) hrank before hlike hleft hleft'
  · rename_i heq
    rw [heq] at hhead
    obtain ⟨tail', heq'⟩ := exists_cons_of_head? hhead
    rw [heq']
    exact h.same (.type false) hrank before hlike hleft hleft'
  · rename_i hparenthesis hbracket harrow htilde
    refine (matches_wordPrimary hs h hrank (word? (afterGap false cs)) before).congr_right ?_
      hlike hleft hleft'
    rw [← hahead.word?]
    split
    · rename_i heq
      exact (hahead.not_cons hparenthesis _ heq).elim
    · rename_i heq
      exact (hahead.not_cons hbracket _ heq).elim
    · rename_i heq
      exact (hahead.not_cons harrow _ heq).elim
    · rename_i heq
      exact (hahead.not_cons htilde _ heq).elim
    · rfl

/-- An operand with no operator before it, and everything that goes on with it. -/
def unprefixed (rules : Rules) (ctx : Context) (behindStar : Bool) : Parser Tree := do
  let tree ← primary rules
  let braceAhead ← isAhead false openBrace
  if behindStar && !tree.isValue && !(braceAhead && opensLiteral ctx tree) then return tree
  postfixed rules ctx tree

theorem matches_unprefixed (ctx : Context) (behindStar : Bool) :
    s.Matches (including bounds) s.Similar (unprefixed rules ctx behindStar)
      (unprefixed rules' ctx behindStar) := by
  refine (matches_primary hs h hrank).bind_advancing (advances_primary h.advances)
    (advances_primary h.advances') fun tree tree' htree =>
      (agree_isAhead hs (by decide)).bind ?_
  rintro brace _ rfl
  rw [htree.isValue, htree.opensLiteral]
  exact Agree.ite (fun _ => agree_pure htree) fun _ => agree_postfixed hs h.toRulesMatch ctx htree

/-- A star with its operand, and everything that goes on with a pointer type. -/
def starred (rules : Rules) (ctx : Context) (behindStar : Bool) : Parser Tree := do
  let tree ← spanned do
    symbol "*"
    let commented ← gap false
    let operand ← rules (.unary ctx.inner true)
    require (operand.isValue || operand.isType)
    return (if operand.isValue then .dereference commented else .pointerType commented, [operand])
  if tree.isValue || behindStar then return tree
  postfixed rules ctx tree

omit hrank in
theorem matches_starred (ctx : Context) (behindStar : Bool) :
    s.Matches (including bounds) s.Similar (starred rules ctx behindStar)
      (starred rules' ctx behindStar) := by
  have hadvances : ∀ f : Unit → Parser (Kind × List Tree),
      (spanned (symbol "*" >>= f)).Advances :=
    fun f => advances_spanned ((advances_symbol (by decide)).bind _)
  refine (matches_spanned hs (agree_star hs fun commented commented' hflag => ?_)).bind_advancing
    (hadvances _) (hadvances _) fun tree tree' htree => ?_
  · refine (h.part _ false).bind fun operand operand' hoperand => ?_
    rw [hoperand.isValue, hoperand.isType]
    refine (agree_require rfl).bind fun _ _ _ => agree_pure ?_
    split
    · exact ⟨.dereference hflag, rfl, .cons hoperand .nil⟩
    · exact ⟨.pointer hflag, rfl, .cons hoperand .nil⟩
  · rw [htree.isValue]
    exact Agree.ite (fun _ => agree_pure htree) fun _ =>
      agree_postfixed hs h.toRulesMatch ctx htree

theorem matches_unary (ctx : Context) (behindStar : Bool) :
    s.Matches (including bounds) s.Similar (unary rules ctx behindStar)
      (unary rules' ctx behindStar) := by
  have hunprefixed := matches_unprefixed hs h hrank ctx behindStar
  have hprefixed := matches_prefixed hs h.toRulesMatch ctx.inner
  intro before cs cs' hlike hleft hleft'
  have hahead := hlike.ahead hs false
  have hhead := hahead.head?
  by_cases harrow : (afterGap false cs).head? = some '<' ∧
      ['<', '-'].isPrefixOf (afterGap false cs) = false
  · -- A less-than sign alone opens nothing.
    obtain ⟨hless, hnone⟩ := harrow
    obtain ⟨rest, heq⟩ := List.head?_eq_some_iff.1 hless
    obtain ⟨rest', heq'⟩ := List.head?_eq_some_iff.1 (hhead.trans hless)
    have hnone' := (hahead.isPrefixOf (show ['<', '-'] ∈ signs by decide)).trans hnone
    rw [heq] at hnone
    rw [heq'] at hnone'
    exact .of_none (read_unary_of_less h.arrow ctx behindStar heq hnone)
      (read_unary_of_less h.arrow' ctx behindStar heq' hnone')
  refine agreeAt_ahead_bind ?_
  dsimp only
  split
  · rename_i heq
    obtain ⟨tail', heq'⟩ := exists_cons_of_head? (heq ▸ hhead)
    rw [heq']
    exact matches_starred hs h ctx behindStar before hlike hleft hleft'
  · rename_i rest heq
    obtain ⟨tail', heq'⟩ := exists_cons_of_head? (heq ▸ hhead)
    have hfront : ['<', '-'].isPrefixOf (afterGap false cs) = true := by
      by_contra hnone
      exact harrow ⟨by rw [heq]; rfl, Bool.eq_false_iff.2 hnone⟩
    -- Behind the arrow the two texts agree, so what follows is the same word.
    have hbehind := (hahead.drop_sign (by decide) hfront).ahead hs false
    rw [heq, heq'] at hbehind
    simp only [List.length_cons, List.length_nil, List.drop_succ_cons, List.drop_one] at hbehind
    rw [heq']
    simp only [hbehind.word?]
    exact Agree.ite (fun _ => hunprefixed before)
      (fun _ => hprefixed _ (by decide) (by decide) before) hlike hleft hleft'
  all_goals first
    | rename_i heq
      obtain ⟨tail', heq'⟩ := exists_cons_of_head? (heq ▸ hhead)
      rw [heq']
      exact hprefixed _ (by decide) (by decide) before hlike hleft hleft'
    | skip
  rename_i hstar hless hplus hminus hnot hcaret hampersand
  refine (hunprefixed before).congr_right ?_ hlike hleft hleft'
  split
  · rename_i heq
    exact (hahead.not_cons hstar _ heq).elim
  · rename_i heq
    exact (hahead.not_cons hless _ heq).elim
  · rename_i heq
    exact (hahead.not_cons hplus _ heq).elim
  · rename_i heq
    exact (hahead.not_cons hminus _ heq).elim
  · rename_i heq
    exact (hahead.not_cons hnot _ heq).elim
  · rename_i heq
    exact (hahead.not_cons hcaret _ heq).elim
  · rename_i heq
    exact (hahead.not_cons hampersand _ heq).elim
  · rfl

omit hrank in
theorem matches_operand (ctx : Context) (hrank : 1 < rank) :
    s.Matches (including bounds) s.Similar (operand rules ctx) (operand rules' ctx) := by
  refine (h.same (.unary ctx false) hrank).bind_advancing (h.advances _) (h.advances' _)
    fun first first' hfirst => ?_
  intro cs cs' hlike hleft hleft'
  -- As many operations may follow as there are characters, so all of them are read.
  rw [← bind_bind, ← bind_bind]
  refine (agree_operationsAfter hs h.toRulesMatch ctx hfirst).bind (fun more more' hmore => ?_)
    hlike hleft hleft'
  have hbars : more'.all (·.1 == ['|']) = more.all (·.1 == ['|']) := by
    induction hmore with
    | nil => rfl
    | cons hfirst _ ih => rw [List.all_cons, List.all_cons, hfirst.1, ih]
  have hempty : more'.isEmpty = more.isEmpty := isEmpty_congr hmore
  have hoperands : List.Forall₂ s.Similar (more.map (·.2)) (more'.map (·.2)) := by
    rw [List.forall₂_map_left_iff, List.forall₂_map_right_iff]
    exact hmore.imp fun _ _ hmore => hmore.2
  have hall := List.Forall₂.cons hfirst hoperands
  rw [hempty]
  simp only [hbars, all_congr Similar.isValue hall, all_congr Similar.isType hall]
  refine Agree.ite (fun _ => agree_pure hfirst) fun _ => (agree_require rfl).bind fun _ _ _ =>
    agree_left.bind fun _ _ _ => agree_pure (similar_plain ?_ hall)
  split <;> rfl

end

end Seam

end PinnedImports.Go
