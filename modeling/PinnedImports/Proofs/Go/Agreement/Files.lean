import PinnedImports.Proofs.Go.Agreement.Statements

/-!
# Source files on two texts

The rules of the grammar agree on the two texts of a seam between tokens (`matches_rules`), so the
same items are read off both texts, or the files are refused together (`run?_items_rel`).
-/

set_option autoImplicit false

namespace PinnedImports.Go

open PinnedImports.Go.Parser PinnedImports.Go.Grammar

/-- The tree of an item of code. -/
def Item.tree? : Item → Option Tree
  | .code tree => some tree
  | _ => none

namespace Seam

variable {s : Seam} {bounds : Nat × Nat}

/-! ## The rules tied together -/

theorem needsArrow_rulesWithin (n : Nat) : NeedsArrow (rulesWithin n) := by
  intro text newlineEnds hless harrow
  cases n with
  | zero => exact read_rulesWithin_zero ..
  | succ n =>
    rw [read_rulesWithin_succ, step]
    exact needsArrow_type _ newlineEnds hless harrow

theorem NeedsArrow.below {rules : Rules} (h : NeedsArrow rules) (goal : Goal) (c : Cursor) :
    NeedsArrow (rules.below goal c) := by
  intro text newlineEnds hless harrow
  rw [read_below]
  split
  · exact h hless harrow
  · rfl

theorem rank_lt_four (goal : Goal) : goal.rank < 4 := by
  cases goal <;> simp [Goal.rank]

theorem weight_start (goal : Goal) (text : List Char) :
    goal.weight (.start text) = 4 * Text.byteLength text + goal.rank := rfl

/-- **Rules nested deep enough agree on the two texts.** The weight of a goal bounds how deep its
parts are nested, so the induction goes from the parts of a goal to the goal. -/
theorem agree_rulesWithin (hs : s.Between) (n : Nat) :
    ∀ (m : Nat) (goal : Goal) {before : Bool} {cs cs' : List Char}, s.Like before cs cs' →
      goal.weight (.start cs) < n → goal.weight (.start cs') < m →
        s.AgreeAt true s.Similar (rulesWithin n goal) (rulesWithin m goal) cs cs' := by
  induction n with
  | zero =>
    intro m goal before cs cs' _ hweight
    exact absurd hweight (Nat.not_lt_zero _)
  | succ n ih =>
    intro m goal before cs cs' hlike hweight hweight'
    obtain ⟨m, rfl⟩ : ∃ k, m = k + 1 := ⟨m - 1, by omega⟩
    -- A part that weighs less is read by the rules below, which agree.
    have hpart : ∀ (part : Goal) {before : Bool} {ds ds' : List Char}, s.Like before ds ds' →
        part.weight (.start ds) < goal.weight (.start cs) →
        part.weight (.start ds') < goal.weight (.start cs') →
          s.AgreeAt true s.Similar ((rulesWithin n).below goal (.start cs) part)
            ((rulesWithin m).below goal (.start cs') part) ds ds' := by
      intro part before ds ds' hlike hless hless'
      have hagree := ih m part hlike (by omega) (by omega)
      rw [AgreeAt, read_below, read_below, if_pos hless, if_pos hless']
      exact hagree
    have hmatch : s.RankedMatch (Text.byteLength cs, Text.byteLength cs') goal.rank
        ((rulesWithin n).below goal (.start cs)) ((rulesWithin m).below goal (.start cs')) := by
      refine ⟨⟨?_, ?_, ?_⟩, ?_, ?_, ?_⟩
      · intro part before ds ds' hlike hless hless'
        have hrank := rank_lt_four part
        apply hpart part hlike <;> rw [weight_start, weight_start] <;> omega
      · exact (advances_rulesWithin n).below goal _
      · exact (advances_rulesWithin m).below goal _
      · intro part hrank before ds ds' hlike hless hless'
        simp only [Nat.lt_succ_iff] at hless hless'
        apply hpart part hlike <;> rw [weight_start, weight_start] <;> omega
      · exact (needsArrow_rulesWithin n).below goal _
      · exact (needsArrow_rulesWithin m).below goal _
    have hstep := matches_step hs goal hmatch before hlike (Nat.lt_succ_self _) (Nat.lt_succ_self _)
    rw [AgreeAt, read_rulesWithin_succ, read_rulesWithin_succ]
    exact hstep

theorem advances_rules : AllAdvance rules := by
  intro goal text rest tree hread
  rw [read_rules] at hread
  exact advances_rulesWithin _ goal hread

theorem matches_rules (hs : s.Between) (goal : Goal) :
    s.Matches bounds s.Similar (rules goal) (rules goal) := by
  intro before cs cs' hlike _ _
  rw [AgreeAt, read_rules, read_rules]
  exact agree_rulesWithin hs _ _ goal hlike (Nat.lt_succ_self _) (Nat.lt_succ_self _)

/-! ## Items -/

/-- Items that are read alike: both are code with similar trees, or neither is code. -/
def SimilarItem (s : Seam) (item item' : Item) : Prop := Option.Rel s.Similar item.tree? item'.tree?

variable (hs : s.Between)

include hs

theorem matches_packageClause : s.Matches bounds s.SimilarItem packageClause packageClause :=
  (matches_keyword hs _).bind fun _ _ _ => (matches_lexeme hs word_mem_lexemes true).bind
    fun _ _ _ => agree_pure .none

theorem matches_importSpec :
    s.Matches bounds Any importSpec importSpec := by
  have hname : s.Matches bounds Any importName importName :=
    fun before => (matches_lexeme hs (by simp [lexemes]) before).mono fun _ _ _ => trivial
  exact fun _ => (agree_gap hs).bind fun _ _ _ => agree_left.bind fun _ _ _ =>
    (Agree.optional (hname false).loosen).bind fun _ _ _ => (agree_gap hs).bind fun _ _ _ =>
      agree_left.bind fun _ _ _ => (matches_lexeme hs string_mem_lexemes false).bind fun _ _ _ =>
        agree_left.bind fun _ _ _ => agree_pure trivial

theorem matches_importDeclaration :
    s.Matches bounds s.SimilarItem importDeclaration importDeclaration := by
  refine (matches_keyword hs _).bind fun _ _ _ => (agree_isAhead hs (by decide)).bind ?_
  rintro parenthesis _ rfl
  refine Agree.ite (fun _ => ?_) fun _ => (matches_importSpec hs true).bind fun _ _ _ =>
    agree_pure .none
  exact (matches_symbol hs (by decide) true).bind fun _ _ _ =>
    (agree_terminated hs (matches_importSpec hs)).bind fun _ _ _ =>
      (matches_symbol hs (by decide) true).bind fun _ _ _ => agree_pure .none

theorem agree_atEnd : s.Agree bounds true true Any atEnd atEnd :=
  agree_ahead_bind hs fun _ _ hahead => agree_require hahead.isEmpty

theorem matches_item : s.Matches bounds s.SimilarItem (item rules) (item rules) := by
  have hend : s.Agree bounds true true Any (terminator <|> atEnd)
      (terminator <|> atEnd) := (matches_terminator hs true).orElse (agree_atEnd hs)
  have hcode : ∀ {body : Parser Tree}, s.Matches bounds s.Similar body body →
      s.Matches bounds s.SimilarItem (Item.code <$> body) (Item.code <$> body) :=
    fun hbody => hbody.map fun _ _ htree => .some htree
  have hclosed : ∀ {body : Parser Item}, s.Matches bounds s.SimilarItem body body →
      s.Matches bounds s.SimilarItem (body <* (terminator <|> atEnd))
        (body <* (terminator <|> atEnd)) := fun hbody before => (hbody before).seqLeft hend
  have hstatement : s.Matches bounds s.SimilarItem
      (Item.code <$> rules (.statement false) <* terminator)
      (Item.code <$> rules (.statement false) <* terminator) := fun before =>
    (hcode (matches_rules hs _) before).seqLeft (matches_terminator hs true)
  intro before
  refine agree_ahead_bind hs fun cs cs' hahead => ?_
  dsimp only
  rw [hahead.word?]
  split
  · exact hclosed (matches_packageClause hs) before
  · exact hclosed (matches_importDeclaration hs) before
  · have hrules : s.RulesMatch bounds rules rules :=
      ⟨matches_rules hs, advances_rules, advances_rules⟩
    exact (hclosed (hcode (matches_functionDeclaration hs hrules)) before).orElse
      ((hclosed (hcode (matches_methodDeclaration hs hrules)) before).orElse (hstatement before))
  · exact hstatement before

omit hs in
theorem run?_items_of_many {text last : List Char} {found : List Item}
    (h : (many (item rules)).read (behindMark text) = some (found, last)) :
    items.run? text = if (afterGap false last).isEmpty then some found else none := by
  split
  · rename_i hempty
    exact run?_items.2
      ⟨last, (read_many_iff (advances_item rules)).1 h, List.isEmpty_iff.1 hempty⟩
  · rename_i hempty
    rw [Option.eq_none_iff_forall_ne_some]
    intro found' hrun
    obtain ⟨last', hrepeats, hnil⟩ := run?_items.1 hrun
    rw [(read_many_iff (advances_item rules)).2 hrepeats, Option.some.injEq, Prod.mk.injEq] at h
    rw [← h.2, hnil] at hempty
    exact hempty rfl

/-- **The same items are read off the two texts**, or both are refused. -/
theorem run?_items_rel :
    Option.Rel (List.Forall₂ s.SimilarItem) (items.run? s.plain) (items.run? s.commented) := by
  have hitems : s.Agree (Text.byteLength s.plain + 1, Text.byteLength s.commented + 1) true true
      (List.Forall₂ s.SimilarItem) (many (item rules)) (many (item rules)) :=
    Agree.many (matches_item hs true) (advances_item rules) (advances_item rules)
  have hstart := hs.like_start
  rcases (hitems hstart (Nat.lt_succ_of_le (byteLength_le_of_suffix hstart.suffix_plain))
      (Nat.lt_succ_of_le (byteLength_le_of_suffix hstart.suffix_commented))).cases with
    ⟨hnone, -⟩ | ⟨found, last, found', last', hread, hread', hfound, hlast⟩
  · obtain ⟨found, hfound⟩ := exists_read_many (item rules) (behindMark s.plain)
    rw [hfound] at hnone
    simp at hnone
  · rw [run?_items_of_many hread, run?_items_of_many hread', (hlast.ahead hs false).isEmpty]
    split
    · exact .some hfound
    · exact .none

end Seam

end PinnedImports.Go
