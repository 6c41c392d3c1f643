import PinnedImports.Proofs.Go.Agreement.Tokens

/-!
# Types on two texts

The rule for types, and what it shares with declarations, agree on the two texts of a seam where the
rules for the parts do.
-/

set_option autoImplicit false

namespace PinnedImports.Go

open PinnedImports.Go.Parser PinnedImports.Go.Grammar

namespace Seam

variable {s : Seam} {bounds : Nat × Nat} {rules rules' : Rules}

/-- Rules for the parts that agree within the bounds. -/
structure RulesMatch (s : Seam) (bounds : Nat × Nat) (rules rules' : Rules) : Prop where
  part : ∀ goal, s.Matches bounds s.Similar (rules goal) (rules' goal)
  advances : AllAdvance rules
  advances' : AllAdvance rules'

theorem isEmpty_congr {α β : Type} {R : α → β → Prop} {as : List α} {bs : List β}
    (h : List.Forall₂ R as bs) : bs.isEmpty = as.isEmpty := by
  cases h <;> rfl

theorem opensType_eq (cs : List Char) :
    opensType cs = (['<', '-'].isPrefixOf cs ||
      cs.head?.any fun c => c = '*' || c = '[' || c = '~' || Text.isIdentifierStart c) := by
  unfold opensType
  split
  · rfl
  · rename_i c rest hnot
    have hfront : ['<', '-'].isPrefixOf (c :: rest) = false := by
      rw [Bool.eq_false_iff]
      intro hfront
      obtain ⟨tail, htail⟩ := List.isPrefixOf_iff_prefix.1 hfront
      rw [List.cons_append, List.cons.injEq] at htail
      exact hnot tail htail.1.symm htail.2.symm
    rw [hfront, Bool.false_or, List.head?_cons, Option.any_some]
  · rfl

theorem exists_cons_of_head? {cs cs' : List Char} {c : Char} (h : cs'.head? = (c :: cs).head?) :
    ∃ tail, cs' = c :: tail := by
  cases cs' with
  | nil => simp at h
  | cons d tail => exact ⟨tail, by simpa using h⟩

/-- A character that is not ahead in one text is not ahead in the other. -/
theorem Ahead.not_cons {cs cs' : List Char} (h : s.Ahead cs cs') {c : Char}
    (hc : ∀ tail, cs = c :: tail → False) (tail' : List Char) : cs' ≠ c :: tail' := by
  rintro rfl
  obtain ⟨tail, heq⟩ := exists_cons_of_head? h.head?.symm
  exact hc tail heq

theorem Ahead.opensType {cs cs' : List Char} (h : s.Ahead cs cs') :
    Grammar.opensType cs' = Grammar.opensType cs := by
  have hfront : ['<', '-'].isPrefixOf cs' = ['<', '-'].isPrefixOf cs := h.isPrefixOf (by decide)
  rw [opensType_eq, opensType_eq, h.head?, hfront]

section

variable (hs : s.Between) (h : s.RulesMatch bounds rules rules')

include hs h

theorem matches_typeElement (newlineEnds : Bool) :
    s.Matches bounds s.Similar (typeElement rules newlineEnds)
      (typeElement rules' newlineEnds) := by
  refine (h.part _).bind fun first first' hfirst =>
    (agree_separated hs (by decide) (h.part _) (h.advances _) (h.advances' _)).bind
      fun others others' hothers => ?_
  rw [isEmpty_congr hothers]
  exact Agree.ite (fun _ => agree_pure hfirst) fun _ => agree_left.bind fun _ _ _ =>
    agree_pure (similar_plain rfl (.cons hfirst hothers))

theorem matches_typeArguments :
    s.Matches bounds (List.Forall₂ s.Similar) (typeArguments rules) (typeArguments rules') :=
  (matches_symbol hs (by decide)).bind fun _ _ _ =>
    (matches_listedLoosely hs (matches_typeElement hs h false)
      (advances_typeElement h.advances false) (advances_typeElement h.advances' false) true).bind
      fun _ _ harguments => (matches_symbol hs (by decide) true).bind fun _ _ _ =>
        agree_pure harguments

theorem matches_namedType (newlineEnds : Bool) :
    s.Matches (including bounds) s.Similar (namedType rules newlineEnds)
      (namedType rules' newlineEnds) := by
  refine (matches_name hs).bind_advancing advances_name advances_name fun first first' hfirst => ?_
  refine (agree_isAhead hs (by decide)).bind ?_
  rintro dot _ rfl
  refine Agree.ite
    (fun _ => (matches_symbol hs (by decide) true).bind fun _ _ _ => (matches_name hs true).bind
      fun _ _ hsecond =>
        (agree_pure (similar_qualified hfirst.1 hfirst.2 hsecond.1 ..)).bind ?_)
    fun _ => (agree_pure hfirst.1).bind ?_
  -- In both cases the type arguments follow.
  all_goals
    intro base base' hbase
    refine (agree_isAhead hs (by decide)).bind ?_
    rintro bracket _ rfl
    exact Agree.ite
      (fun _ => (matches_typeArguments hs h true).bind fun _ _ harguments =>
        agree_left.bind fun _ _ _ => agree_pure (similar_plain rfl (.cons hbase harguments)))
      fun _ => agree_pure hbase

theorem matches_parameter :
    s.Matches bounds (List.Forall₂ s.Similar) (parameter rules) (parameter rules') := by
  have htype : ∀ newlineEnds, s.Matches bounds (List.Forall₂ s.Similar)
      (do return [← rules (.type newlineEnds)]) (do return [← rules' (.type newlineEnds)]) :=
    fun newlineEnds => (h.part _).bind fun _ _ htype => agree_pure (.cons htype .nil)
  have hvariadic : s.Matches bounds (List.Forall₂ s.Similar)
      (do
        symbol "..."
        return [← rules (.type false)])
      (do
        symbol "..."
        return [← rules' (.type false)]) :=
    (matches_symbol hs (by decide)).bind fun _ _ _ => htype false true
  refine hvariadic.orElse (Matches.orElse ?_ ?_)
  · refine (h.part _).bind fun type type' htype => ?_
    refine (agree_isAhead hs (by decide)).bind ?_
    rintro comma _ rfl
    refine (agree_isAhead hs (by decide)).bind ?_
    rintro parenthesis _ rfl
    exact (agree_require rfl).bind fun _ _ _ => agree_pure (.cons htype .nil)
  · exact (matches_name hs).bind fun _ _ hname =>
      ((hvariadic true).orElse (htype false true)).bind fun _ _ htype =>
        agree_pure (.cons hname.1 htype)

theorem matches_parameters :
    s.Matches bounds (List.Forall₂ s.Similar) (parameters rules) (parameters rules') :=
  (matches_symbol hs (by decide)).bind fun _ _ _ =>
    (agree_listedOrComma hs (matches_parameter hs h) (advances_parameter h.advances)
      (advances_parameter h.advances')).bind fun _ _ hentries =>
        (matches_symbol hs (by decide) true).bind fun _ _ _ =>
          agree_pure (List.rel_flatten hentries)

theorem matches_signature (newlineEnds : Bool) :
    s.Matches bounds (List.Forall₂ s.Similar) (signature rules newlineEnds)
      (signature rules' newlineEnds) := by
  refine (matches_parameters hs h).bind fun inputs inputs' hinputs => ?_
  refine agree_ahead_bind hs fun cs cs' hahead => ?_
  have hresults : ∀ outputs outputs', List.Forall₂ s.Similar outputs outputs' →
      s.Agree bounds true true (List.Forall₂ s.Similar) (pure (inputs ++ outputs))
        (pure (inputs' ++ outputs')) :=
    fun _ _ houtputs => agree_pure (List.rel_append hinputs houtputs)
  rw [hahead.head?, hahead.opensType]
  refine Agree.ite (fun _ => (matches_parameters hs h true).bind hresults) fun _ =>
    Agree.ite (fun _ => ?_) fun _ => (agree_pure .nil).bind hresults
  have htype := (h.part (.type newlineEnds) true).bind fun _ _ htype =>
    agree_pure (List.Forall₂.cons htype .nil)
  exact (htype.orElse (agree_pure .nil)).bind hresults

theorem matches_typeParameters :
    s.Matches bounds (List.Forall₂ s.Similar) (typeParameters rules) (typeParameters rules') := by
  have hgroup : s.Matches bounds (List.Forall₂ s.Similar)
      (do
        let names ← listed false name
        let bound ← typeElement rules false
        return names ++ [bound])
      (do
        let names ← listed false name
        let bound ← typeElement rules' false
        return names ++ [bound]) :=
    (matches_names hs false).bind fun _ _ hnames =>
      (matches_typeElement hs h false true).bind fun _ _ hbound =>
        agree_pure (List.rel_append hnames (.cons hbound .nil))
  exact (matches_symbol hs (by decide)).bind fun _ _ _ =>
    (matches_listedLoosely hs hgroup (advances_name.listed.bind _) (advances_name.listed.bind _)
      true).bind fun _ _ hgroups => (matches_symbol hs (by decide) true).bind fun _ _ _ =>
        agree_pure (List.rel_flatten hgroups)

omit h in
theorem agree_tag :
    s.Agree bounds true true (List.Forall₂ s.Similar)
      (do
        let cs ← ahead true
        if cs.head? = some '"' || cs.head? = some '`' then return [← stringLiteral]
        return [])
      (do
        let cs ← ahead true
        if cs.head? = some '"' || cs.head? = some '`' then return [← stringLiteral]
        return []) := by
  refine agree_ahead_bind hs fun cs cs' hahead => ?_
  rw [hahead.head?]
  exact Agree.ite
    (fun _ => (matches_stringLiteral hs true).bind fun _ _ htag => agree_pure (.cons htag .nil))
    fun _ => agree_pure .nil

theorem matches_field : s.Matches bounds s.Similar (field rules) (field rules') := by
  refine matches_noded hs rfl (Agree.orElse ?_ ?_)
  · -- An embedded type.
    refine (Agree.optional (matches_symbol hs (by decide) false).loosen).bind fun _ _ _ =>
      ((matches_namedType hs h true).of_including false).bind fun type type' htype =>
        (agree_tag hs).bind fun tagged tagged' htagged => ?_
    refine agree_ahead_bind hs fun cs cs' hahead => ?_
    rw [hahead.head?]
    exact (agree_require rfl).bind fun _ _ _ => agree_pure (.cons htype htagged)
  · exact (matches_names hs true false).bind fun _ _ hnames =>
      (h.part _ true).bind fun _ _ htype => (agree_tag hs).bind fun _ _ htagged =>
        agree_pure (List.rel_append hnames (.cons htype htagged))

theorem matches_interfaceElement :
    s.Matches bounds s.Similar (interfaceElement rules) (interfaceElement rules') := by
  refine Matches.orElse (matches_noded hs rfl ?_) (matches_typeElement hs h true)
  refine (matches_name hs false).bind fun methodName methodName' hname => ?_
  refine (agree_isAhead hs (by decide)).bind ?_
  rintro parenthesis _ rfl
  exact (agree_require rfl).bind fun _ _ _ => (matches_signature hs h true true).bind
    fun _ _ hsignature => agree_pure (.cons hname.1 hsignature)

/-- Rules for types that start with a keyword match where there are any. -/
theorem matches_keywordType (newlineEnds : Bool) (word : String) :
    Option.Rel (s.Matches (including bounds) s.SameParts) (keywordType rules newlineEnds word)
      (keywordType rules' newlineEnds word) := by
  have hkeyword : s.Matches (including bounds) Any (keyword word) (keyword word) :=
    matches_keyword hs word
  have hadvances := advances_keyword word
  unfold keywordType
  split
  · exact .some (hkeyword.bind_advancing hadvances hadvances fun _ _ _ =>
      (matches_braced hs (matches_field hs h) true).bind fun _ _ hfields =>
        agree_pure (sameParts rfl hfields))
  · exact .some (hkeyword.bind_advancing hadvances hadvances fun _ _ _ =>
      (matches_braced hs (matches_interfaceElement hs h) true).bind fun _ _ helements =>
        agree_pure (sameParts rfl helements))
  · exact .some (hkeyword.bind_advancing hadvances hadvances fun _ _ _ =>
      (matches_symbol hs (by decide) true).bind fun _ _ _ => (h.part _ true).bind
        fun _ _ hkey => (matches_symbol hs (by decide) true).bind fun _ _ _ =>
          (h.part _ true).bind fun _ _ htype =>
            agree_pure (sameParts rfl (.cons hkey (.cons htype .nil))))
  · exact .some (hkeyword.bind_advancing hadvances hadvances fun _ _ _ =>
      (Agree.optional (matches_symbol hs (by decide) true)).bind fun _ _ _ =>
        (h.part _ true).bind fun _ _ htype => agree_pure (sameParts rfl (.cons htype .nil)))
  · exact .some (hkeyword.bind_advancing hadvances hadvances fun _ _ _ =>
      (matches_signature hs h newlineEnds true).bind fun _ _ hsignature =>
        agree_pure (sameParts rfl hsignature))
  · exact .none

/-- A type that no sign begins: the one its keyword stands for, or else a named one. -/
def wordType (rules : Rules) (newlineEnds : Bool) (word : Option String) : Parser Tree :=
  match word.bind (keywordType rules newlineEnds) with
  | some rule => spanned rule
  | none => namedType rules newlineEnds

theorem matches_wordType (newlineEnds : Bool) (word : Option String) :
    s.Matches (including bounds) s.Similar (wordType rules newlineEnds word)
      (wordType rules' newlineEnds word) := by
  have hnamed := matches_namedType hs h newlineEnds
  cases word with
  | none => exact hnamed
  | some word =>
    have hrules := matches_keywordType hs h newlineEnds word
    rw [wordType, wordType, Option.bind_some, Option.bind_some]
    generalize keywordType rules newlineEnds word = rule at hrules
    generalize keywordType rules' newlineEnds word = rule' at hrules
    cases hrules with
    | none => exact hnamed
    | some hrule => exact matches_spanned hs (hrule false)

theorem matches_type (newlineEnds : Bool) :
    s.Matches (including bounds) s.Similar (type rules newlineEnds) (type rules' newlineEnds) := by
  have hsymbol : ∀ text : String, text.toList ∈ signs → ∀ {p p' : Parser (List Tree)},
      s.Agree bounds true true (List.Forall₂ s.Similar) p p' →
        s.Agree (including bounds) false true (List.Forall₂ s.Similar)
          (symbol text >>= fun _ => p) (symbol text >>= fun _ => p') := by
    intro text hsign p p' hp
    have hne : text.toList ≠ [] := by
      intro hnil
      rw [hnil] at hsign
      exact absurd hsign (by decide)
    exact (matches_symbol hs hsign).bind_advancing (advances_symbol hne) (advances_symbol hne)
      (fun _ _ _ => hp) false
  intro before
  refine agree_ahead_bind hs fun cs cs' hahead => ?_
  have hhead := hahead.head?
  split
  · obtain ⟨tail', rfl⟩ := exists_cons_of_head? hhead
    exact matches_spanned hs (agree_star hs fun commented commented' hflag =>
      (h.part _ false).bind fun _ _ htype =>
        agree_pure ⟨.pointer hflag, rfl, .cons htype .nil⟩) before
  · obtain ⟨tail', rfl⟩ := exists_cons_of_head? hhead
    exact matches_noded hs rfl (hsymbol _ (by decide) ((h.part _ true).bind fun _ _ htype =>
      (matches_symbol hs (by decide) true).bind fun _ _ _ => agree_pure (.cons htype .nil))) before
  · obtain ⟨tail', rfl⟩ := exists_cons_of_head? hhead
    refine matches_spanned hs ((matches_symbol hs (by decide)).bind_advancing
      (advances_symbol (by decide)) (advances_symbol (by decide)) (fun _ _ _ => ?_) false) before
    refine (agree_isAhead hs (by decide)).bind ?_
    rintro bracket _ rfl
    refine Agree.ite (fun _ => ?_) fun _ => ?_
    · exact (matches_symbol hs (by decide) true).bind fun _ _ _ => (h.part _ true).bind
        fun _ _ htype => agree_pure (sameParts rfl (.cons htype .nil))
    · exact (h.part _ true).bind fun _ _ hlength => (agree_require hlength.isValue).bind
        fun _ _ _ => (matches_symbol hs (by decide) true).bind fun _ _ _ => (h.part _ true).bind
          fun _ _ htype => agree_pure (sameParts rfl (.cons hlength (.cons htype .nil)))
  · obtain ⟨tail', rfl⟩ := exists_cons_of_head? hhead
    exact matches_noded hs rfl (hsymbol _ (by decide) ((matches_keyword hs _ true).bind
      fun _ _ _ => (h.part _ true).bind fun _ _ htype => agree_pure (.cons htype .nil))) before
  · obtain ⟨tail', rfl⟩ := exists_cons_of_head? hhead
    exact matches_noded hs rfl (hsymbol _ (by decide) ((h.part _ true).bind fun _ _ htype =>
      agree_pure (.cons htype .nil))) before
  · rename_i hstar hparenthesis hbracket harrow htilde
    -- The head is the same, so it is no sign on the other side either.
    refine (matches_wordType hs h newlineEnds (word? cs) before).congr_right ?_
    rw [← hahead.word?]
    split
    · exact (hahead.not_cons hstar _ rfl).elim
    · exact (hahead.not_cons hparenthesis _ rfl).elim
    · exact (hahead.not_cons hbracket _ rfl).elim
    · exact (hahead.not_cons harrow _ rfl).elim
    · exact (hahead.not_cons htilde _ rfl).elim
    · rfl

end

end Seam

end PinnedImports.Go
