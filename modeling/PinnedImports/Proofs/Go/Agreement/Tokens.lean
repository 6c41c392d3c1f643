import PinnedImports.Proofs.Go.Advancing
import PinnedImports.Proofs.Go.Agreement.Combinators

/-!
# Tokens on two texts

The parsers for single tokens agree on the two texts of a seam between tokens, and so do the nodes
and lists that are made of parsers that agree.
-/

set_option autoImplicit false

namespace PinnedImports.Go

open PinnedImports.Go.Parser

namespace Seam

variable {α β γ δ : Type} {s : Seam}

/-- Two parsers that agree from every place, and come to a place where a token has just ended. -/
def Matches (s : Seam) (bounds : Nat × Nat) (R : α → β → Prop) (p : Parser α) (p' : Parser β) :
    Prop :=
  ∀ before, s.Agree bounds before true R p p'

variable {bounds : Nat × Nat} {before behind : Bool} {R : α → β → Prop} {S : γ → δ → Prop}
  {p q : Parser α} {p' q' : Parser β}

theorem Matches.bind {f : α → Parser γ} {f' : β → Parser δ} (hp : s.Matches bounds R p p')
    (hf : ∀ a b, R a b → s.Agree bounds true true S (f a) (f' b)) :
    s.Matches bounds S (p >>= f) (p' >>= f') :=
  fun before => (hp before).bind hf

theorem Matches.bind_advancing {f : α → Parser γ} {f' : β → Parser δ}
    (hp : s.Matches (including bounds) R p p') (hadvances : p.Advances) (hadvances' : p'.Advances)
    (hf : ∀ a b, R a b → s.Agree bounds true true S (f a) (f' b)) :
    s.Matches (including bounds) S (p >>= f) (p' >>= f') :=
  fun before => (hp before).bind_advancing hadvances hadvances' hf

theorem Matches.orElse (hp : s.Matches bounds R p p') (hq : s.Matches bounds R q q') :
    s.Matches bounds R (p <|> q) (p' <|> q') :=
  fun before => (hp before).orElse (hq before)

theorem Matches.map {f : α → γ} {f' : β → δ} (hp : s.Matches bounds R p p')
    (hf : ∀ a b, R a b → S (f a) (f' b)) : s.Matches bounds S (f <$> p) (f' <$> p') :=
  fun before => (hp before).map hf

theorem Matches.of_including (h : s.Matches (including bounds) R p p') :
    s.Matches bounds R p p' :=
  fun before => Agree.of_including (h before)

/-! ## Tokens -/

theorem afterGap_idem (cs : List Char) :
    afterGap false (afterGap false cs) = afterGap false cs := by
  by_cases hnil : afterGap false cs = []
  · rw [hnil, Grammar.afterGap_nil]
  · exact afterGap_afterGap hnil

theorem agree_left : s.Agree bounds before before Any left left := by
  intro cs cs' hlike _ _
  exact .of_some (read_left _) (read_left _) trivial hlike

theorem agreeAt_ahead_bind {newlineEnds : Bool} {f : List Char → Parser γ}
    {f' : List Char → Parser δ} {cs cs' : List Char}
    (h : s.AgreeAt behind S (f (afterGap newlineEnds cs)) (f' (afterGap newlineEnds cs')) cs cs') :
    s.AgreeAt behind S (ahead newlineEnds >>= f) (ahead newlineEnds >>= f') cs cs' := by
  rw [AgreeAt, read_bind, read_bind, read_ahead, read_ahead]
  exact h

section

variable (hs : s.Between)

include hs

theorem agree_gap :
    s.Agree bounds before false Any (gap false) (gap false) := by
  intro cs cs' hlike _ _
  exact .of_some (read_gap ..) (read_gap ..) trivial (hlike.gap hs)

/-- The characters ahead are only looked at. -/
theorem agree_ahead_bind {newlineEnds : Bool} {f : List Char → Parser γ} {f' : List Char → Parser δ}
    (hf : ∀ cs cs', s.Ahead cs cs' → s.Agree bounds before behind S (f cs) (f' cs')) :
    s.Agree bounds before behind S (ahead newlineEnds >>= f) (ahead newlineEnds >>= f') :=
  fun _ _ hlike hleft hleft' => agreeAt_ahead_bind
    (hf _ _ (hlike.ahead hs newlineEnds) hlike hleft hleft')

theorem agree_isAhead {newlineEnds : Bool} {text : String} (htext : text.toList ∈ signs) :
    s.Agree bounds before before (fun a b : Bool => b = a) (isAhead newlineEnds text)
      (isAhead newlineEnds text) := by
  intro cs cs' hlike _ _
  exact .of_some (read_isAhead ..) (read_isAhead ..)
    ((hlike.ahead hs newlineEnds).isPrefixOf htext) hlike

theorem matches_lexeme {measure : Measure} (hmem : measure ∈ lexemes) :
    s.Matches bounds (fun a b : List Char => b = a) (lexeme measure) (lexeme measure) := by
  intro before cs cs' hlike _ _
  have hahead := hlike.ahead hs false
  rw [AgreeAt, read_lexeme, read_lexeme, hahead.measure hmem]
  cases hn : measure (afterGap false cs) with
  | none => exact .none
  | some n => exact .some ⟨hahead.take hmem hn, hahead.drop hmem hn⟩

theorem matches_symbol {text : String} (htext : text.toList ∈ signs) :
    s.Matches bounds Any (symbol text) (symbol text) :=
  (matches_lexeme hs (sign_mem_lexemes htext)).bind fun _ _ _ => agree_pure trivial

theorem matches_keyword (word : String) :
    s.Matches bounds Any (keyword word) (keyword word) :=
  (matches_lexeme hs word_mem_lexemes).bind fun a b hab =>
    agree_require (by rw [hab])

theorem matches_terminator :
    s.Matches bounds Any terminator terminator := by
  intro before cs cs' hlike _ _
  have hahead := hlike.ahead hs true
  have hmem : Measure.one isTerminator ∈ lexemes := by simp [lexemes]
  have hread : ∀ text, terminator.read text =
      (Measure.one isTerminator (afterGap true text)).map fun n =>
        ((), (afterGap true text).drop n) := by
    intro text
    rw [read_terminator]
    cases afterGap true text with
    | nil => rfl
    | cons c rest =>
      rw [Measure.one]
      simp only
      split <;> rfl
  rw [AgreeAt, hread, hread, hahead.measure hmem]
  cases hn : Measure.one isTerminator (afterGap true cs) with
  | none => exact .none
  | some n => exact .some ⟨trivial, hahead.drop hmem hn⟩

/-! ## Nodes -/

/-- A node that holds a word, where the word satisfies the condition. -/
theorem matches_word {kind : Kind} (hkind : kind ∈ [.name, .allocator]) {body : Parser (List Tree)}
    (accepts : List Char → Bool)
    (hbody : ∀ text, body.read text = (wordLength (afterGap false text)).bind fun n =>
      if accepts ((afterGap false text).take n) then some ([], (afterGap false text).drop n)
      else none) :
    s.Matches bounds (fun a b => s.Similar a b ∧ a.kind = kind) (noded kind body)
      (noded kind body) := by
  have hread : ∀ text, (noded kind body).read text =
      (wordLength (afterGap false text)).bind fun n =>
        if accepts ((afterGap false text).take n) then
          some (.node kind (Text.byteLength (afterGap false text))
            (Text.byteLength ((afterGap false text).drop n)) [], (afterGap false text).drop n)
        else none := by
    intro text
    rw [noded, spanned, read_bind, read_gap, Option.bind_some, read_bind, read_left,
      Option.bind_some, read_bind, read_map, hbody, afterGap_idem]
    cases wordLength (afterGap false text) with
    | none => rfl
    | some n =>
      rw [Option.bind_some, Option.bind_some]
      split <;> rfl
  intro before cs cs' hlike _ _
  have hahead := hlike.ahead hs false
  rw [AgreeAt, hread, hread, hahead.measure word_mem_lexemes]
  cases hn : wordLength (afterGap false cs) with
  | none => exact .none
  | some n =>
    have htake := hahead.take word_mem_lexemes hn
    rw [Option.bind_some, Option.bind_some, htake]
    split
    · exact .some ⟨⟨similar_word (hlike.gap hs) htake hkind, rfl⟩, hahead.drop word_mem_lexemes hn⟩
    · exact .none

theorem matches_name :
    s.Matches bounds (fun a b => s.Similar a b ∧ a.kind = .name) name name := by
  refine matches_word hs (by simp) (fun _ => true) fun text => ?_
  rw [read_bind, read_lexeme]
  cases wordLength (afterGap false text) <;> rfl

theorem matches_allocator (word : String) :
    s.Matches bounds s.Similar (noded .allocator (keyword word *> pure []))
      (noded .allocator (keyword word *> pure [])) := by
  have hbody : ∀ text, (keyword word *> pure ([] : List Tree)).read text =
      (wordLength (afterGap false text)).bind fun n =>
        if String.ofList ((afterGap false text).take n) == word then
          some ([], (afterGap false text).drop n)
        else none := by
    intro text
    rw [read_seqRight, read_keyword]
    cases wordLength (afterGap false text) with
    | none => rfl
    | some n =>
      rw [Option.bind_some, Option.bind_some]
      split <;> rfl
  have hallocator : Kind.allocator ∈ [Kind.name, Kind.allocator] := by simp
  intro before
  exact (matches_word hs hallocator (fun cs => String.ofList cs == word) hbody before).mono
    fun _ _ h => h.1

/-- Whether nodes of the kind hold no word and set no condition on their parts. -/
def isPlain : Kind → Bool
  | .name | .allocator | .qualifiedType | .index _ _ => false
  | _ => true

omit hs in
theorem notWord_of_isPlain {kind : Kind} (h : isPlain kind = true) :
    kind ∉ [.name, .allocator] := by
  cases kind <;> simp_all [isPlain]

omit hs in
theorem holdsTypes_of_isPlain {kind : Kind} (h : isPlain kind = true) (children : List Tree) :
    HoldsTypes kind children := by
  cases kind <;> trivial

/-- What a node is made of, the same in both texts. -/
def SameParts (s : Seam) (parts parts' : Kind × List Tree) : Prop :=
  s.SameKind parts.1 parts'.1 ∧ isPlain parts.1 = true ∧ List.Forall₂ s.Similar parts.2 parts'.2

omit hs in
theorem sameParts {kind : Kind} (hkind : isPlain kind = true) {children children' : List Tree}
    (h : List.Forall₂ s.Similar children children') :
    s.SameParts (kind, children) (kind, children') := ⟨.same kind, hkind, h⟩

omit hs in
theorem similar_plain {kind : Kind} (hkind : isPlain kind = true) {children children' : List Tree}
    (h : List.Forall₂ s.Similar children children') {start stop start' stop' : Nat} :
    s.Similar (.node kind start stop children) (.node kind start' stop' children') :=
  similar_node (.same kind) (notWord_of_isPlain hkind) (holdsTypes_of_isPlain hkind children) h ..

theorem matches_spanned {body body' : Parser (Kind × List Tree)}
    (hbody : s.Agree bounds false true s.SameParts body body') :
    s.Matches bounds s.Similar (spanned body) (spanned body') := by
  intro before
  rw [spanned, spanned]
  refine (agree_gap hs).bind fun _ _ _ => agree_left.bind fun start start' _ =>
    hbody.bind fun parts parts' hparts => ?_
  obtain ⟨kind, children⟩ := parts
  obtain ⟨kind', children'⟩ := parts'
  obtain ⟨hkind, hplain, hchildren⟩ := hparts
  exact agree_left.bind fun stop stop' _ =>
    agree_pure (similar_node hkind (notWord_of_isPlain hplain)
      (holdsTypes_of_isPlain hplain children) hchildren ..)

theorem matches_noded {kind : Kind} (hkind : isPlain kind = true) {body body' : Parser (List Tree)}
    (hbody : s.Agree bounds false true (List.Forall₂ s.Similar) body body') :
    s.Matches bounds s.Similar (noded kind body) (noded kind body') :=
  matches_spanned hs (hbody.map fun _ _ h => sameParts hkind h)

theorem matches_stringLiteral : s.Matches bounds s.Similar stringLiteral stringLiteral :=
  matches_noded hs rfl
    ((matches_lexeme hs string_mem_lexemes).bind (fun _ _ _ => agree_pure .nil) false)

/-- A star, and whether a comment stands behind it. -/
theorem agree_star {f f' : Bool → Parser α} {R : α → α → Prop}
    (hf : ∀ commented commented', s.SameFlag commented commented' →
      s.Agree bounds false true R (f commented) (f' commented')) :
    s.Agree (including bounds) before true R
      (do
        symbol "*"
        f (← gap false))
      (do
        symbol "*"
        f' (← gap false)) := by
  intro cs cs' hlike hleft hleft'
  have hahead := hlike.ahead hs false
  have hsuffix : afterGap false cs <:+ s.plain := (afterGap_suffix ..).trans hlike.suffix_plain
  have hstar : "*".toList ∈ signs := by decide
  have hfront := hahead.isPrefixOf hstar
  have hadvances := advances_symbol (show "*".toList ≠ [] by decide)
  refine (matches_symbol hs hstar before hlike hleft hleft').bind
    fun _ rest _ rest' hread hread' _ _ => ?_
  have hless := byteLength_lt_of_read hadvances hread
  have hless' := byteLength_lt_of_read hadvances hread'
  -- The rests are what stands behind the star.
  rw [read_symbol] at hread hread'
  split at hread
  · rename_i hahead'
    rw [if_pos (hfront.trans hahead'), Option.some.injEq, Prod.mk.injEq] at hread'
    rw [Option.some.injEq, Prod.mk.injEq] at hread
    obtain ⟨-, rfl⟩ := hread
    obtain ⟨-, rfl⟩ := hread'
    have hgap := fun text : List Char => byteLength_le_of_suffix (afterGap_suffix false text)
    rw [AgreeAt, read_bind, read_bind, read_gap, read_gap]
    exact hf _ _ (hahead.sameFlag hs hsuffix hahead') ((hahead.drop_sign hstar hahead').gap hs)
      ((hgap _).trans_lt (hless.trans_le (Nat.le_of_lt_succ hleft)))
      ((hgap _).trans_lt (hless'.trans_le (Nat.le_of_lt_succ hleft')))
  · simp at hread

/-! ## Lists -/

/-- Items behind a sign each, which has to be ahead. -/
theorem agree_separated {newlineEnds : Bool} {sign : String} (hsign : sign.toList ∈ signs)
    (hitem : s.Matches bounds R p p') (hadvances : p.Advances) (hadvances' : p'.Advances) :
    s.Agree bounds true true (List.Forall₂ R)
      (many do
        require (← isAhead newlineEnds sign)
        symbol sign
        p)
      (many do
        require (← isAhead newlineEnds sign)
        symbol sign
        p') := by
  refine Agree.many ?_ ?_ ?_
  · exact (agree_isAhead hs hsign).bind fun _ _ h => (agree_require h).bind fun _ _ _ =>
      (matches_symbol hs hsign true).bind fun _ _ _ => hitem true
  · exact Advances.bind_right fun _ => Advances.bind_right fun _ => Advances.bind_right fun _ =>
      hadvances
  · exact Advances.bind_right fun _ => Advances.bind_right fun _ => Advances.bind_right fun _ =>
      hadvances'

theorem matches_listed {newlineEnds : Bool} (hitem : s.Matches bounds R p p')
    (hadvances : p.Advances) (hadvances' : p'.Advances) :
    s.Matches bounds (List.Forall₂ R) (listed newlineEnds p) (listed newlineEnds p') :=
  hitem.bind fun _ _ hfirst =>
    (agree_separated hs (by decide) hitem hadvances hadvances').bind fun _ _ hothers =>
      agree_pure (.cons hfirst hothers)

theorem matches_names (newlineEnds : Bool) :
    s.Matches bounds (List.Forall₂ s.Similar) (listed newlineEnds name) (listed newlineEnds name) :=
  matches_listed hs (fun before => (matches_name hs before).mono fun _ _ h => h.1) advances_name
    advances_name

theorem matches_listedLoosely (hitem : s.Matches bounds R p p') (hadvances : p.Advances)
    (hadvances' : p'.Advances) :
    s.Matches bounds (List.Forall₂ R) (listedLoosely p) (listedLoosely p') :=
  (matches_listed hs hitem hadvances hadvances').bind fun _ _ hitems =>
    (Agree.optional (matches_symbol hs (by decide) true)).bind fun _ _ _ => agree_pure hitems

theorem agree_listedOrComma (hitem : s.Matches bounds R p p') (hadvances : p.Advances)
    (hadvances' : p'.Advances) :
    s.Agree bounds true true (List.Forall₂ R) (listedOrComma p) (listedOrComma p') :=
  (matches_listedLoosely hs hitem hadvances hadvances' true).orElse
    ((Agree.optional (matches_symbol hs (by decide) true)).bind fun _ _ _ => agree_pure .nil)

theorem agree_terminated (hitem : s.Matches bounds R p p') :
    s.Agree bounds true true (List.Forall₂ R) (terminated p) (terminated p') := by
  have hmany : s.Agree bounds true true (List.Forall₂ R) (many (terminator *> p))
      (many (terminator *> p')) :=
    Agree.many ((matches_terminator hs true).seqRight (hitem true))
      (advances_terminator.seqRight _) (advances_terminator.seqRight _)
  exact ((hitem true).bind fun _ _ hfirst => hmany.bind fun _ _ hothers =>
    (Agree.optional (matches_terminator hs true)).bind fun _ _ _ =>
      agree_pure (.cons hfirst hothers)).orElse (agree_pure .nil)

theorem matches_braced (hitem : s.Matches bounds R p p') :
    s.Matches bounds (List.Forall₂ R) (braced p) (braced p') :=
  (matches_symbol hs (by decide)).bind fun _ _ _ =>
    (agree_terminated hs hitem).bind fun _ _ hitems =>
      (matches_symbol hs (by decide) true).bind fun _ _ _ => agree_pure hitems

end

end Seam

end PinnedImports.Go
