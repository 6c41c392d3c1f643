import PinnedImports.Proofs.Go.Items
import PinnedImports.Proofs.Go.Lexemes

/-!
# Rules that advance

Every rule of the grammar passes at least one character (`advances_rulesWithin`), so the loops of
the grammar never use up their bounds: they are the recursions that their equations say
(`read_postfixed`, `read_operationsAfter`, `read_statements`).
-/

set_option autoImplicit false

namespace PinnedImports.Go

namespace Parser

variable {α β : Type}

theorem advances_lexeme {measure : Measure} (h : measure.Takes) : (lexeme measure).Advances := by
  intro text rest a hread
  rw [read_lexeme, Option.map_eq_some_iff] at hread
  obtain ⟨n, hn, heq⟩ := hread
  rw [Prod.mk.injEq] at heq
  obtain ⟨hpos, hle⟩ := h hn
  have hgap : (afterGap false text).length ≤ text.length := (List.drop_suffix _ _).length_le
  rw [← heq.2, List.length_drop]
  omega

theorem advances_symbol {text : String} (h : text.toList ≠ []) : (symbol text).Advances :=
  (advances_lexeme (Measure.takes_exactly h)).bind _

theorem Advances.seqRight {p : Parser α} (hp : p.Advances) (q : Parser β) : (p *> q).Advances :=
  hp.bind _

theorem advances_spanned {body : Parser (Kind × List Tree)} (h : body.Advances) :
    (spanned body).Advances := by
  rw [spanned]
  exact Advances.bind_right fun _ => Advances.bind_right fun _ => h.bind _

theorem advances_name : name.Advances :=
  advances_noded _ ((advances_lexeme takes_wordLength).bind _)

theorem Advances.ite {c : Prop} [Decidable c] {p q : Parser α} (hp : p.Advances)
    (hq : q.Advances) : (if c then p else q).Advances := by
  split
  · exact hp
  · exact hq

theorem Advances.listed {newlineEnds : Bool} {item : Parser α} (h : item.Advances) :
    (listed newlineEnds item).Advances := h.bind _

theorem Advances.listedLoosely {item : Parser α} (h : item.Advances) :
    (listedLoosely item).Advances := h.listed.bind _

end Parser

namespace Grammar

open PinnedImports.Go.Parser

variable {rules : Rules}

/-- Every rule for the parts advances. -/
def AllAdvance (rules : Rules) : Prop := ∀ goal, (rules goal).Advances

theorem advances_typeElement (h : AllAdvance rules) (newlineEnds : Bool) :
    (typeElement rules newlineEnds).Advances := (h _).bind _

theorem advances_namedType (newlineEnds : Bool) : (namedType rules newlineEnds).Advances :=
  advances_name.bind _

theorem advances_parameter (h : AllAdvance rules) : (parameter rules).Advances :=
  Advances.orElse ((advances_symbol (by decide)).bind _)
    (Advances.orElse ((h _).bind _) (advances_name.bind _))

theorem advances_keywordType {newlineEnds : Bool} {word : String}
    {rule : Parser (Kind × List Tree)} (h : keywordType rules newlineEnds word = some rule) :
    rule.Advances := by
  unfold keywordType at h
  split at h
  all_goals first
    | exact (Option.some.inj h) ▸ (advances_keyword _).bind _
    | simp at h

theorem advances_type (newlineEnds : Bool) : (type rules newlineEnds).Advances := by
  refine Advances.bind_right fun cs => ?_
  split
  · exact advances_spanned ((advances_symbol (by decide)).bind _)
  · exact advances_noded _ ((advances_symbol (by decide)).bind _)
  · exact advances_spanned ((advances_symbol (by decide)).bind _)
  · exact advances_noded _ ((advances_symbol (by decide)).bind _)
  · exact advances_noded _ ((advances_symbol (by decide)).bind _)
  · split
    · rename_i rule hrule
      obtain ⟨word, -, hword⟩ := Option.bind_eq_some_iff.1 hrule
      exact advances_spanned (advances_keywordType hword)
    · exact advances_namedType newlineEnds

theorem advances_bracketType (h : AllAdvance rules) : (bracketType rules).Advances := by
  refine Advances.bind_right fun cs => ?_
  split
  · exact advances_noded _ ((advances_symbol (by decide)).bind _)
  · exact h _

theorem advances_wordOperand (h : AllAdvance rules) (word : String) :
    (wordOperand rules word).Advances := by
  unfold wordOperand
  split
  · exact advances_spanned ((advances_keyword _).bind _)
  · exact h _
  · exact h _
  · exact h _
  · exact h _
  · exact advances_noded _ ((advances_keyword _).bind _)
  · exact advances_noded _ ((advances_keyword _).bind _)
  · exact advances_noded _ ((advances_keyword _).bind _)
  · exact advances_noded _ ((advances_keyword _).bind _)
  · exact (advances_noded _ ((advances_keyword _).seqRight _)).bind _
  · exact (advances_noded _ ((advances_keyword _).seqRight _)).bind _
  · exact advances_name

theorem literal_mem_lexemes :
    Measure.longest [numberLength, runeLength, stringLength] ∈ lexemes := by simp [lexemes]

theorem advances_primary (h : AllAdvance rules) : (primary rules).Advances := by
  refine Advances.bind_right fun cs => ?_
  split
  · exact advances_noded _ ((advances_symbol (by decide)).bind _)
  · exact advances_bracketType h
  · exact h _
  · exact h _
  · split
    · exact advances_wordOperand h _
    · exact advances_noded _
        ((advances_lexeme (takes_of_mem_lexemes literal_mem_lexemes)).bind _)

theorem advances_unary (h : AllAdvance rules) (ctx : Context) (behindStar : Bool) :
    (unary rules ctx behindStar).Advances := by
  have hprefixed : ∀ operator : String, operator.toList ≠ [] →
      ∀ f, (noded .prefixed (symbol operator >>= f)).Advances :=
    fun operator hne f => advances_noded _ ((advances_symbol hne).bind _)
  refine Advances.bind_right fun cs => ?_
  dsimp only
  split
  · exact (advances_spanned ((advances_symbol (by decide)).bind _)).bind _
  · split
    · exact (advances_primary h).bind _
    · exact hprefixed _ (by decide) _
  · exact hprefixed _ (by decide) _
  · exact hprefixed _ (by decide) _
  · exact hprefixed _ (by decide) _
  · exact hprefixed _ (by decide) _
  · exact hprefixed _ (by decide) _
  · exact (advances_primary h).bind _

theorem advances_operand (h : AllAdvance rules) (ctx : Context) : (operand rules ctx).Advances :=
  (h _).bind _

theorem advances_literalBody : (literalBody rules).Advances :=
  advances_noded _ ((advances_symbol (by decide)).bind _)

theorem advances_block : (block rules).Advances :=
  advances_noded _ ((advances_symbol (by decide)).bind _)

theorem advances_declaration (word : String) (spec : Parser (List Tree)) :
    (declaration word spec).Advances :=
  advances_noded _ ((advances_keyword word).bind _)

theorem advances_keywordStatement {inCase : Bool} {word : String} {rule : Parser Tree}
    (h : keywordStatement rules inCase word = some rule) : rule.Advances := by
  unfold keywordStatement at h
  split at h
  · exact (Option.some.inj h) ▸ advances_declaration _ _
  · exact (Option.some.inj h) ▸ advances_declaration _ _
  · exact (Option.some.inj h) ▸ advances_declaration _ _
  all_goals first
    | exact (Option.some.inj h) ▸ advances_noded _ ((advances_keyword _).seqRight _)
    | simp at h

theorem advances_expression (h : AllAdvance rules) (ctx : Context) :
    (expression rules ctx).Advances := (h _).bind _

theorem advances_label : label.Advances := by
  rw [label]
  exact Advances.bind_right fun cs => Advances.bind_right fun _ => advances_name.bind _

theorem advances_statement (h : AllAdvance rules) (inCase : Bool) :
    (statement rules inCase).Advances := by
  refine Advances.bind_right fun cs => ?_
  split
  · exact h _
  · exact advances_noded _ ((advances_symbol (by decide)).bind _)
  · split
    · rename_i rule hrule
      obtain ⟨word, -, hword⟩ := Option.bind_eq_some_iff.1 hrule
      exact advances_keywordStatement hword
    · refine Advances.orElse ?_ ?_
      · exact advances_noded _ (advances_label.bind _)
      · exact advances_noded _ (((advances_expression h _).bind _).bind _)

theorem advances_step (h : AllAdvance rules) : AllAdvance (step rules) := by
  intro goal
  cases goal with
  | type newlineEnds => exact advances_type newlineEnds
  | operand ctx => exact advances_operand h ctx
  | unary ctx behindStar => exact advances_unary h ctx behindStar
  | literalBody => exact advances_literalBody
  | block => exact advances_block
  | statement inCase => exact advances_statement h inCase

theorem AllAdvance.below (h : AllAdvance rules) (goal : Goal) (c : Cursor) :
    AllAdvance (rules.below goal c) := by
  intro part text rest tree hread
  rw [read_below] at hread
  split at hread
  · exact h part hread
  · simp at hread

/-- **Every rule of the grammar advances.** -/
theorem advances_rulesWithin (n : Nat) : AllAdvance (rulesWithin n) := by
  induction n with
  | zero =>
    intro goal text rest tree hread
    rw [read_rulesWithin_zero] at hread
    simp at hread
  | succ n ih =>
    intro goal text rest tree hread
    rw [read_rulesWithin_succ] at hread
    exact advances_step (ih.below goal _) goal hread

/-! ## The loops of the grammar -/

/-- A parser that passes at least one character where it has an answer. -/
def AdvancesIfSome {α : Type} (p : Parser (Option α)) : Prop :=
  ∀ ⦃text rest : List Char⦄ ⦃a : α⦄, p.read text = some (some a, rest) → rest.length < text.length

theorem advancesIfSome_none {α : Type} : AdvancesIfSome (pure none : Parser (Option α)) := by
  intro text rest a h
  rw [read_pure] at h
  simp at h

theorem advancesIfSome_of_advances {α : Type} {p : Parser (Option α)} (h : p.Advances) :
    AdvancesIfSome p := fun _ _ _ hread => h hread

theorem advances_callArguments : (callArguments rules).Advances :=
  (advances_symbol (by decide)).bind _

theorem advances_brackets (tree : Tree) : (brackets rules tree).Advances :=
  (advances_symbol (by decide)).bind _

/-- What goes on with a tree passes a character. -/
theorem advances_continuation (h : AllAdvance rules) (ctx : Context) (tree : Tree) :
    AdvancesIfSome (continuation rules ctx tree) := by
  intro text rest more hread
  rw [continuation, read_bind, read_ahead, Option.bind_some] at hread
  revert hread
  have hcases : ∀ p : Parser (Option Tree), AdvancesIfSome p →
      p.read text = some (some more, rest) → rest.length < text.length := fun p hp => hp (a := more)
  split
  · split
    · exact hcases _ advancesIfSome_none
    · exact hcases _ (advancesIfSome_of_advances ((advances_symbol (by decide)).bind _))
  · split
    · exact hcases _ (advancesIfSome_of_advances ((advances_brackets tree).bind _))
    · exact hcases _ advancesIfSome_none
  · split
    · exact hcases _ (advancesIfSome_of_advances (advances_callArguments.bind _))
    · split
      · exact hcases _ (advancesIfSome_of_advances ((advances_symbol (by decide)).bind _))
      · exact hcases _ advancesIfSome_none
  · split
    · exact hcases _ (advancesIfSome_of_advances ((h _).bind _))
    · exact hcases _ advancesIfSome_none
  · exact hcases _ advancesIfSome_none

theorem afterGap_nil (newlineEnds : Bool) : afterGap newlineEnds [] = [] := by
  rw [afterGap, List.drop_nil]

theorem read_continuation_nil (ctx : Context) (tree : Tree) :
    (continuation rules ctx tree).read [] = some (none, []) := by
  rw [continuation, read_bind, read_ahead, Option.bind_some, afterGap_nil]
  rfl

/-- One round of `continued`, with the rounds behind it given. -/
theorem read_continued_succ (ctx : Context) (n : Nat) (tree : Tree) (text : List Char) :
    (continued rules ctx (n + 1) tree).read text =
      ((continuation rules ctx tree).read text).bind fun r => match r.1 with
        | none => some (tree, r.2)
        | some more => (continued rules ctx n more).read r.2 := by
  rw [continued, read_bind]
  congr 1
  funext r
  cases r.1 <;> rfl

theorem read_continued_congr (h : AllAdvance rules) (ctx : Context) :
    ∀ (n m : Nat) (tree : Tree) (text : List Char), text.length ≤ n → text.length ≤ m →
      (continued rules ctx n tree).read text = (continued rules ctx m tree).read text := by
  have hnil : ∀ (n : Nat) (tree : Tree),
      (continued rules ctx n tree).read [] = some (tree, []) := by
    intro n tree
    cases n with
    | zero => rfl
    | succ n => rw [read_continued_succ, read_continuation_nil]; rfl
  intro n
  induction n with
  | zero =>
    intro m tree text hn _
    obtain rfl := List.eq_nil_of_length_eq_zero (Nat.le_zero.1 hn)
    rw [hnil, hnil]
  | succ n ih =>
    intro m tree text hn hm
    cases m with
    | zero =>
      obtain rfl := List.eq_nil_of_length_eq_zero (Nat.le_zero.1 hm)
      rw [hnil, hnil]
    | succ m =>
      rw [read_continued_succ, read_continued_succ]
      cases hread : (continuation rules ctx tree).read text with
      | none => rfl
      | some r =>
        obtain ⟨more, rest⟩ := r
        cases more with
        | none => rfl
        | some more =>
          have hshorter := advances_continuation h ctx tree hread
          exact ih m more rest (by omega) (by omega)

/-- **What goes on with a tree is read for as long as there is more of it.** -/
theorem read_postfixed (h : AllAdvance rules) (ctx : Context) (tree : Tree) (text : List Char) :
    (postfixed rules ctx tree).read text =
      (continuation rules ctx tree >>= fun more => match more with
        | none => pure tree
        | some more => postfixed rules ctx more).read text := by
  have hpostfixed : ∀ tree text, (postfixed rules ctx tree).read text =
      (continued rules ctx text.length tree).read text := fun tree text => by
    rw [postfixed, read_bind, read_look, Option.bind_some]
  rw [hpostfixed, read_continued_congr h ctx _ (text.length + 1) tree text le_rfl (by omega),
    read_continued_succ, read_bind]
  cases hread : (continuation rules ctx tree).read text with
  | none => rfl
  | some r =>
    obtain ⟨more, rest⟩ := r
    cases more with
    | none => rfl
    | some more =>
      have hshorter := advances_continuation h ctx tree hread
      simp only [Option.bind_some]
      rw [hpostfixed]
      exact read_continued_congr h ctx _ _ more rest (by omega) le_rfl

/-- The operators and operands behind an operand, without a bound. -/
def operationsAfter (rules : Rules) (ctx : Context) (last : Tree) :
    Parser (List (List Char × Tree)) := do
  operations rules ctx (← look List.length) last

/-- One operator with its operand, and then those behind it as given. -/
def operationThen (rules : Rules) (ctx : Context) (last : Tree)
    (more : Tree → Parser (List (List Char × Tree))) : Parser (List (List Char × Tree)) := do
  match ctx.follow.binaryOperator? (← ahead (ctx.newlineEnds && last.isValue)) with
  | none => return []
  | some operator =>
    let _ ← lexeme (.exactly operator)
    let next ← rules (.unary ctx.inner false)
    return (operator, next) :: (← more next)

theorem operationThen_congr (h : AllAdvance rules) (ctx : Context) (last : Tree) (text : List Char)
    {more more' : Tree → Parser (List (List Char × Tree))}
    (hmore : ∀ next rest, rest.length < text.length →
      (more next).read rest = (more' next).read rest) :
    (operationThen rules ctx last more).read text =
      (operationThen rules ctx last more').read text := by
  rw [operationThen, operationThen, read_bind, read_bind, read_ahead, Option.bind_some,
    Option.bind_some]
  simp only
  split
  · rfl
  · rename_i operator _
    rw [read_bind, read_bind]
    cases hread : (lexeme (.exactly operator)).read text with
    | none => rfl
    | some r =>
      rw [Option.bind_some, Option.bind_some, read_bind, read_bind]
      cases hnext : (rules (.unary ctx.inner false)).read r.2 with
      | none => rfl
      | some next =>
        have hshorter := h _ hnext
        have hle := (suffix_of_read hread).length_le
        rw [Option.bind_some, Option.bind_some, read_bind, read_bind,
          hmore next.1 next.2 (by omega)]

theorem operations_succ (ctx : Context) (n : Nat) (last : Tree) :
    operations rules ctx (n + 1) last = operationThen rules ctx last (operations rules ctx n) := rfl

theorem read_operations_congr (h : AllAdvance rules) (ctx : Context) :
    ∀ (n m : Nat) (last : Tree) (text : List Char), text.length ≤ n → text.length ≤ m →
      (operations rules ctx n last).read text = (operations rules ctx m last).read text := by
  have hnil : ∀ (n : Nat) (last : Tree),
      (operations rules ctx n last).read [] = some ([], []) := by
    intro n last
    cases n with
    | zero => rfl
    | succ n =>
      have hnone : ctx.follow.binaryOperator? [] = none := by
        cases hfollow : ctx.follow <;> rfl
      rw [operations_succ, operationThen, read_bind, read_ahead, Option.bind_some, afterGap_nil]
      simp only [hnone]
      rfl
  intro n
  induction n with
  | zero =>
    intro m last text hn _
    obtain rfl := List.eq_nil_of_length_eq_zero (Nat.le_zero.1 hn)
    rw [hnil, hnil]
  | succ n ih =>
    intro m last text hn hm
    cases m with
    | zero =>
      obtain rfl := List.eq_nil_of_length_eq_zero (Nat.le_zero.1 hm)
      rw [hnil, hnil]
    | succ m =>
      rw [operations_succ, operations_succ]
      exact operationThen_congr h ctx last text fun next rest hrest =>
        ih m next rest (by omega) (by omega)

/-- **Operators and operands are read for as long as there are more of them.** -/
theorem read_operationsAfter (h : AllAdvance rules) (ctx : Context) (last : Tree)
    (text : List Char) :
    (operationsAfter rules ctx last).read text =
      (operationThen rules ctx last (operationsAfter rules ctx)).read text := by
  have hafter : ∀ last text, (operationsAfter rules ctx last).read text =
      (operations rules ctx text.length last).read text := fun last text => by
    rw [operationsAfter, read_bind, read_look, Option.bind_some]
  rw [hafter, read_operations_congr h ctx _ (text.length + 1) last text le_rfl (by omega),
    operations_succ]
  refine operationThen_congr h ctx last text fun next rest hrest => ?_
  rw [hafter]
  exact read_operations_congr h ctx _ _ next rest (by omega) le_rfl

/-- One statement with its terminator, and then those behind it as given. -/
def statementThen (rules : Rules) (inCase : Bool) (more : Parser (List Tree)) :
    Parser (List Tree) := do
  if endsList inCase (← ahead false) then return []
  let lastLabel : Parser (List Tree) := do
    let tree ← label
    require (endsList inCase (← ahead false))
    return [tree]
  lastLabel <|> do
    let tree ← rules (.statement inCase)
    match ← Parser.optional terminator with
    | none => return [tree]
    | some () => return tree :: (← more)

theorem statementsUpTo_succ (inCase : Bool) (n : Nat) :
    statementsUpTo rules inCase (n + 1) =
      statementThen rules inCase (statementsUpTo rules inCase n) := rfl

theorem statementThen_congr (h : AllAdvance rules) (inCase : Bool) (text : List Char)
    {more more' : Parser (List Tree)}
    (hmore : ∀ rest, rest.length < text.length → more.read rest = more'.read rest) :
    (statementThen rules inCase more).read text = (statementThen rules inCase more').read text := by
  rw [statementThen, statementThen, read_bind, read_bind, read_ahead, Option.bind_some,
    Option.bind_some]
  simp only
  split
  · rfl
  · rw [read_orElse, read_orElse]
    congr 1
    rw [read_bind, read_bind]
    cases hread : (rules (.statement inCase)).read text with
    | none => rfl
    | some r =>
      have hshorter := h _ hread
      rw [Option.bind_some, Option.bind_some, read_bind, read_bind]
      cases hend : (Parser.optional terminator).read r.2 with
      | none => rfl
      | some e =>
        have hle := (suffix_of_read hend).length_le
        obtain ⟨ended, rest⟩ := e
        cases ended with
        | none => rfl
        | some u =>
          simp only [Option.bind_some]
          rw [read_bind, read_bind, hmore rest (by simp only at hle; omega)]

theorem read_statementsUpTo_congr (h : AllAdvance rules) (inCase : Bool) :
    ∀ (n m : Nat) (text : List Char), text.length < n → text.length < m →
      (statementsUpTo rules inCase n).read text = (statementsUpTo rules inCase m).read text := by
  intro n
  induction n with
  | zero => intro m text hn; omega
  | succ n ih =>
    intro m text hn hm
    obtain ⟨m, rfl⟩ : ∃ k, m = k + 1 := ⟨m - 1, by omega⟩
    rw [statementsUpTo_succ, statementsUpTo_succ]
    exact statementThen_congr h inCase text fun rest hrest => ih m rest (by omega) (by omega)

/-- **Statements are read for as long as there are more of them.** -/
theorem read_statements (h : AllAdvance rules) (inCase : Bool) (text : List Char) :
    (statements rules inCase).read text =
      (statementThen rules inCase (statements rules inCase)).read text := by
  have hstatements : ∀ text, (statements rules inCase).read text =
      (statementsUpTo rules inCase (text.length + 1)).read text := fun text => by
    rw [statements, read_bind, read_look, Option.bind_some]
  rw [hstatements, statementsUpTo_succ]
  refine statementThen_congr h inCase text fun rest hrest => ?_
  rw [hstatements]
  exact read_statementsUpTo_congr h inCase _ _ rest hrest (by omega)

end Grammar

end PinnedImports.Go
