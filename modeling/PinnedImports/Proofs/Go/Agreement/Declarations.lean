import PinnedImports.Proofs.Go.Agreement.Expressions

/-!
# Declarations on two texts

The rules for constants, variables, types and functions agree on the two texts of a seam where the
rules for the parts do.
-/

set_option autoImplicit false

namespace PinnedImports.Go

open PinnedImports.Go.Parser PinnedImports.Go.Grammar

namespace Grammar

theorem advances_constantSpec {rules : Rules} : (constantSpec rules).Advances :=
  advances_name.listed.bind _

theorem advances_variableSpec {rules : Rules} : (variableSpec rules).Advances :=
  advances_name.listed.bind _

theorem advances_typeSpec {rules : Rules} : (typeSpec rules).Advances := advances_name.bind _

end Grammar

namespace Seam

variable {s : Seam} {bounds : Nat × Nat} {rules rules' : Rules} (hs : s.Between)

include hs

theorem matches_declaration (word : String) {spec spec' : Parser (List Tree)}
    (hspec : s.Matches bounds (List.Forall₂ s.Similar) spec spec') (hadvances : spec.Advances)
    (hadvances' : spec'.Advances) :
    s.Matches (including bounds) s.Similar (declaration word spec) (declaration word spec') := by
  refine matches_noded hs rfl ((matches_keyword hs word).bind_advancing (advances_keyword word)
    (advances_keyword word) (fun _ _ _ => (agree_isAhead hs (by decide)).bind ?_) false)
  rintro parenthesis _ rfl
  refine Agree.ite (fun _ => ?_) fun _ => hspec true
  have hspecs : s.Agree bounds true true (List.Forall₂ (List.Forall₂ s.Similar))
      (many (spec <* terminator)) (many (spec' <* terminator)) :=
    Agree.many ((hspec true).seqLeft (matches_terminator hs true)) (hadvances.seqLeft _)
      (hadvances'.seqLeft _)
  exact (matches_symbol hs (by decide) true).bind fun _ _ _ => hspecs.bind fun _ _ hspecs =>
    (matches_symbol hs (by decide) true).bind fun _ _ _ => agree_pure (List.rel_flatten hspecs)

variable (h : s.RulesMatch bounds rules rules')

include h

theorem matches_initialValues :
    s.Matches bounds (List.Forall₂ s.Similar) (initialValues rules) (initialValues rules') :=
  (matches_symbol hs (by decide)).bind fun _ _ _ => matches_expressions hs h .line true

theorem matches_constantSpec :
    s.Matches bounds (List.Forall₂ s.Similar) (constantSpec rules) (constantSpec rules') := by
  have hvalues := matches_initialValues hs h true
  refine (matches_names hs true).bind fun names names' hnames =>
    agree_ahead_bind hs fun cs cs' hahead => ?_
  rw [hahead.head?, hahead.opensType]
  refine Agree.ite
    (fun _ => hvalues.bind fun _ _ hvalues => agree_pure (List.rel_append hnames hvalues))
    fun _ => Agree.ite (fun _ => ?_) fun _ => agree_pure hnames
  exact (h.part _ true).bind fun _ _ htype => hvalues.bind fun _ _ hvalues =>
    agree_pure (List.rel_append hnames (.cons htype hvalues))

theorem matches_variableSpec :
    s.Matches bounds (List.Forall₂ s.Similar) (variableSpec rules) (variableSpec rules') := by
  have hvalues := matches_initialValues hs h true
  refine (matches_names hs false).bind fun names names' hnames =>
    (agree_isAhead hs (by decide)).bind ?_
  rintro equals _ rfl
  refine Agree.ite
    (fun _ => hvalues.bind fun _ _ hvalues => agree_pure (List.rel_append hnames hvalues))
    fun _ => (h.part _ true).bind fun type type' htype => (agree_isAhead hs (by decide)).bind ?_
  rintro equals' _ rfl
  exact Agree.ite
    (fun _ => hvalues.bind fun _ _ hvalues =>
      agree_pure (List.rel_append hnames (.cons htype hvalues)))
    fun _ => agree_pure (List.rel_append hnames (.cons htype .nil))

theorem matches_typeSpec :
    s.Matches bounds (List.Forall₂ s.Similar) (typeSpec rules) (typeSpec rules') := by
  have hplain : s.Agree bounds true true (List.Forall₂ s.Similar)
      (do return [← rules (.type true)]) (do return [← rules' (.type true)]) :=
    (h.part _ true).bind fun _ _ htype => agree_pure (.cons htype .nil)
  have haliased : s.Agree bounds true true (List.Forall₂ s.Similar)
      (do
        symbol "="
        return [← rules (.type true)])
      (do
        symbol "="
        return [← rules' (.type true)]) :=
    (matches_symbol hs (by decide) true).bind fun _ _ _ => hplain
  have hgeneric := (matches_typeParameters hs h true).bind fun _ _ hbounds =>
    (haliased.orElse hplain).bind fun _ _ htypes => agree_pure (List.rel_append hbounds htypes)
  exact (matches_name hs).bind fun _ _ hname =>
    (haliased.orElse (hplain.orElse hgeneric)).bind fun _ _ htypes =>
      agree_pure (.cons hname.1 htypes)

theorem agree_functionBody :
    s.Agree bounds true true (List.Forall₂ s.Similar) (functionBody rules)
      (functionBody rules') := by
  refine (agree_isAhead hs (by decide)).bind ?_
  rintro brace _ rfl
  exact Agree.ite
    (fun _ => (h.part _ true).bind fun _ _ hbody => agree_pure (.cons hbody .nil))
    fun _ => agree_pure .nil

theorem matches_functionDeclaration :
    s.Matches bounds s.Similar (functionDeclaration rules) (functionDeclaration rules') := by
  refine matches_noded hs rfl ((matches_keyword hs _).bind (fun _ _ _ => (matches_name hs true).bind
    fun name name' hname => (agree_isAhead hs (by decide)).bind ?_) false)
  rintro bracket _ rfl
  refine Agree.ite (fun _ => (matches_typeParameters hs h true).bind ?_)
    fun _ => (agree_pure (R := List.Forall₂ s.Similar) .nil).bind ?_
  all_goals
    exact fun _ _ hbounds => (matches_signature hs h true true).bind fun _ _ htypes =>
      (agree_functionBody hs h).bind fun _ _ hbody =>
        agree_pure (.cons hname.1 (List.rel_append (List.rel_append hbounds htypes) hbody))

theorem matches_methodDeclaration :
    s.Matches bounds s.Similar (methodDeclaration rules) (methodDeclaration rules') :=
  matches_noded hs rfl ((matches_keyword hs _).bind (fun _ _ _ =>
    (matches_parameters hs h true).bind fun _ _ hreceiver => (matches_name hs true).bind
      fun _ _ hname => (matches_signature hs h true true).bind fun _ _ htypes =>
        (agree_functionBody hs h).bind fun _ _ hbody =>
          agree_pure (List.rel_append (List.rel_append hreceiver (.cons hname.1 htypes)) hbody))
            false)

end Seam

end PinnedImports.Go
