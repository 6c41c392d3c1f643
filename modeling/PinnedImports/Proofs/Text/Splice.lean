import Mathlib.Tactic.Common
import PinnedImports.Text.Edit

/-!
# Texts with ranges exchanged

`Substituted` relates a text to the text in which the ranges of a list of edits are exchanged: the
edits follow each other without overlap, and everything between their ranges is kept. Edits that do
not overlap have such a result (`exists_substituted`), and it is what making them from the last to
the first gives, in whatever order they are listed (`applyEdits_substitutes`). `Spliced` says the same
of edits none of which is a mere insertion.
-/

set_option autoImplicit false

namespace PinnedImports.Text

/-- A place between two characters of a text that starts at byte `offset`, or at one of its ends. -/
def IsPlace (offset : Nat) (text : List Char) (n : Nat) : Prop :=
  ∃ before after, text = before ++ after ∧ n = offset + byteLength before

/-- One of the edits ends before the other starts, so their ranges share no byte, and neither inserts
a text inside the range of the other. -/
def Edit.Disjoint (a b : Edit) : Prop := a.stop ≤ b.start ∨ b.stop ≤ a.start

/-- The second text is the first, which starts at byte `offset`, with the ranges of the edits
exchanged. The edits stand in the order of their ranges. -/
inductive Spliced : Nat → List Char → List Edit → List Char → Prop
  | keep {offset : Nat} {text : List Char} : Spliced offset text [] text
  | edit {offset : Nat} {before old after result : List Char} {e : Edit} {es : List Edit} :
      old ≠ [] → e.start = offset + byteLength before → e.stop = e.start + byteLength old →
        Spliced e.stop after es result →
          Spliced offset (before ++ (old ++ after)) (e :: es) (before ++ (e.text ++ result))

/-- The second text is the first, which starts at byte `offset`, with the ranges of the edits
exchanged. The edits stand in the order of their ranges; an empty range is a place where a text is
inserted. -/
inductive Substituted : Nat → List Char → List Edit → List Char → Prop
  | keep {offset : Nat} {text : List Char} : Substituted offset text [] text
  | edit {offset : Nat} {before old after result : List Char} {e : Edit} {es : List Edit} :
      e.start = offset + byteLength before → e.stop = e.start + byteLength old →
        Substituted e.stop after es result →
          Substituted offset (before ++ (old ++ after)) (e :: es) (before ++ (e.text ++ result))

theorem byteLength_pos {cs : List Char} (h : cs ≠ []) : 0 < byteLength cs := by
  cases cs with
  | nil => exact absurd rfl h
  | cons c cs =>
    have hc := Char.utf8Size_pos c
    rw [byteLength_cons]
    omega

/-- Of two beginnings of a text the one with fewer bytes is the shorter one. -/
theorem exists_append_of_byteLength_le {a b c d : List Char} (h : a ++ b = c ++ d)
    (hle : byteLength a ≤ byteLength c) : ∃ m, c = a ++ m ∧ b = m ++ d := by
  rcases List.append_eq_append_iff.1 h with ⟨m, hc, hb⟩ | ⟨m, ha, hd⟩
  · exact ⟨m, hc, hb⟩
  · have hm : m = [] := by
      by_contra hne
      have hpos := byteLength_pos hne
      rw [ha, byteLength_append] at hle
      omega
    subst hm
    rw [List.append_nil] at ha
    exact ⟨[], by rw [ha, List.append_nil], hd.symm⟩

/-- Of two ways to cut a text the pieces are the same if the first ones have as many bytes. -/
theorem append_inj_of_byteLength_eq {a b c d : List Char} (h : a ++ b = c ++ d)
    (heq : byteLength a = byteLength c) : a = c ∧ b = d := by
  obtain ⟨m, hc, hb⟩ := exists_append_of_byteLength_le h (Nat.le_of_eq heq)
  have hm : m = [] := by
    by_contra hne
    have hpos := byteLength_pos hne
    rw [hc, byteLength_append] at heq
    omega
  subst hm
  exact ⟨by rw [hc, List.append_nil], hb⟩

theorem IsPlace.prepend {offset : Nat} {before text : List Char} {n : Nat}
    (h : IsPlace (offset + byteLength before) text n) : IsPlace offset (before ++ text) n := by
  obtain ⟨a, b, rfl, rfl⟩ := h
  exact ⟨before ++ a, b, by rw [List.append_assoc], by rw [byteLength_append, Nat.add_assoc]⟩

namespace Spliced

variable {offset : Nat} {text result : List Char} {es : List Edit}

/-- A text in front of the exchanged ranges is kept. -/
theorem prepend (before : List Char) (h : Spliced (offset + byteLength before) text es result) :
    Spliced offset (before ++ text) es (before ++ result) := by
  cases h with
  | keep => exact .keep
  | @edit _ first old after result e es hold hstart hstop hrest =>
    rw [← List.append_assoc, ← List.append_assoc before]
    refine .edit hold ?_ hstop hrest
    rw [hstart, byteLength_append]
    omega

/-- Edits of two texts are edits of the one that they make up. -/
theorem append {text' result' : List Char} {es' : List Edit} (h : Spliced offset text es result)
    (h' : Spliced (offset + byteLength text) text' es' result') :
    Spliced offset (text ++ text') (es ++ es') (result ++ result') := by
  induction h with
  | keep => exact prepend _ h'
  | @edit offset before old after result e es hold hstart hstop _ ih =>
    simp only [List.append_assoc, List.cons_append]
    refine .edit hold hstart hstop (ih ?_)
    have hplace : offset + byteLength (before ++ (old ++ after)) = e.stop + byteLength after := by
      rw [hstop, hstart, byteLength_append, byteLength_append]
      omega
    rw [← hplace]
    exact h'

/-- A text behind the exchanged ranges is kept. -/
theorem behind (h : Spliced offset text es result) (after : List Char) :
    Spliced offset (text ++ after) es (result ++ after) := by
  have hkeep : Spliced (offset + byteLength text) after [] after := .keep
  rw [← List.append_nil es]
  exact h.append hkeep

/-- The exchange of one range that ends the text. -/
theorem exchange {before old new : List Char} (hold : old ≠ []) :
    Spliced offset (before ++ old)
      [⟨offset + byteLength before, offset + byteLength before + byteLength old, new⟩]
      (before ++ new) := by
  have hspliced : Spliced offset (before ++ (old ++ []))
      [⟨offset + byteLength before, offset + byteLength before + byteLength old, new⟩]
      (before ++ (new ++ [])) := .edit hold rfl rfl .keep
  simpa using hspliced

/-- Each edit exchanges some bytes of the text. -/
theorem bounds (h : Spliced offset text es result) :
    ∀ e ∈ es, offset ≤ e.start ∧ e.start < e.stop ∧ e.stop ≤ offset + byteLength text := by
  induction h with
  | keep => intro e he; simp at he
  | @edit offset before old after result e es hold hstart hstop _ ih =>
    have hpos := byteLength_pos hold
    intro f hf
    rw [byteLength_append, byteLength_append]
    rcases List.mem_cons.1 hf with rfl | hf
    · omega
    · have hle := ih f hf
      omega

/-- Each edit exchanges whole characters. -/
theorem places (h : Spliced offset text es result) :
    ∀ e ∈ es, IsPlace offset text e.start ∧ IsPlace offset text e.stop := by
  induction h with
  | keep => intro e he; simp at he
  | @edit offset before old after result e es hold hstart hstop _ ih =>
    have hplace : offset + byteLength (before ++ old) = e.stop := by
      rw [hstop, hstart, byteLength_append, Nat.add_assoc]
    intro f hf
    rcases List.mem_cons.1 hf with rfl | hf
    · refine ⟨⟨before, old ++ after, rfl, hstart⟩, before ++ old, after, ?_, hplace.symm⟩
      rw [List.append_assoc]
    · obtain ⟨hstart', hstop'⟩ := ih f hf
      rw [← hplace] at hstart' hstop'
      rw [← List.append_assoc]
      exact ⟨hstart'.prepend, hstop'.prepend⟩

/-- What an edit puts into the text stands in the result. -/
theorem infix_of_mem (h : Spliced offset text es result) : ∀ e ∈ es, e.text <:+: result := by
  induction h with
  | keep => simp
  | @edit offset before old after result e es _ _ _ _ ih =>
    intro f hf
    rcases List.mem_cons.1 hf with rfl | hf
    · exact List.infix_append' before f.text result
    · apply (ih f hf).trans
      rw [← List.append_assoc]
      exact (List.suffix_append _ _).isInfix

/-- Each edit ends before the ones behind it start. -/
theorem pairwise (h : Spliced offset text es result) :
    es.Pairwise fun a b => a.stop ≤ b.start := by
  induction h with
  | keep => exact .nil
  | edit _ _ _ hrest ih => exact List.pairwise_cons.2 ⟨fun f hf => (hrest.bounds f hf).1, ih⟩

/-- Each edit starts before the ones behind it. -/
theorem increasing (h : Spliced offset text es result) :
    es.Pairwise fun a b => a.start < b.start := by
  have hbounds := h.bounds
  refine h.pairwise.imp_of_mem fun {a b} ha hb hab => ?_
  have hlt := (hbounds a ha).2.1
  omega

/-- Exchanged ranges are substituted. -/
theorem substituted (h : Spliced offset text es result) : Substituted offset text es result := by
  induction h with
  | keep => exact .keep
  | edit _ hstart hstop _ ih => exact .edit hstart hstop ih

/-- Exchanged ranges on either side of a place are exchanged in the two halves there. -/
theorem split {a b : List Char} (h : Spliced offset text es result) (htext : text = a ++ b)
    (hes : ∀ e ∈ es, e.stop ≤ offset + byteLength a ∨ offset + byteLength a ≤ e.start) :
    ∃ esa esb ra rb, es = esa ++ esb ∧ result = ra ++ rb ∧ Spliced offset a esa ra ∧
      Spliced (offset + byteLength a) b esb rb := by
  induction h generalizing a with
  | keep => exact ⟨[], [], a, b, rfl, htext, .keep, .keep⟩
  | @edit offset before old after result e es hold hstart hstop hrest ih =>
    rcases hes e (List.mem_cons_self ..) with hle | hle
    · -- The first edit lies in the first half.
      obtain ⟨tail, rfl, hafter⟩ := exists_append_of_byteLength_le
        (a := before ++ old) (b := after) (c := a) (d := b)
        (by rw [← htext, List.append_assoc]) (by rw [byteLength_append]; omega)
      have hplace : offset + byteLength (before ++ old ++ tail) = e.stop + byteLength tail := by
        rw [byteLength_append, byteLength_append, hstop, hstart]
        omega
      rw [hplace] at hes ⊢
      obtain ⟨esa, esb, ra, rb, rfl, rfl, ha, hb⟩ :=
        ih hafter fun f hf => hes f (List.mem_cons_of_mem _ hf)
      refine ⟨e :: esa, esb, before ++ (e.text ++ ra), rb, rfl, by simp, ?_, hb⟩
      rw [List.append_assoc]
      exact .edit hold hstart hstop ha
    · -- All edits lie in the second half.
      obtain ⟨tail, rfl, rfl⟩ := exists_append_of_byteLength_le
        (a := a) (b := b) (c := before) (d := old ++ after) htext.symm (by omega)
      refine ⟨[], e :: es, a, tail ++ (e.text ++ result), rfl, by simp, .keep, ?_⟩
      refine .edit hold ?_ hstop hrest
      rw [hstart, byteLength_append]
      omega

end Spliced

/-- Where no edit is a mere insertion, the substituted ranges are exchanged. -/
theorem Substituted.spliced {offset : Nat} {text result : List Char} {es : List Edit}
    (h : Substituted offset text es result) (hes : ∀ e ∈ es, e.start < e.stop) :
    Spliced offset text es result := by
  induction h with
  | keep => exact .keep
  | @edit offset before old after result e es hstart hstop _ ih =>
    obtain ⟨he, hes⟩ := List.forall_mem_cons.1 hes
    refine .edit ?_ hstart hstop (ih hes)
    rintro rfl
    rw [byteLength_nil] at hstop
    omega

/-! ## Making the edits -/

/-- An edit of a range exchanges it. -/
theorem Edit.apply_append {before old after : List Char} {e : Edit}
    (hstart : e.start = byteLength before) (hstop : e.stop = e.start + byteLength old) :
    e.apply (before ++ (old ++ after)) = before ++ (e.text ++ after) := by
  have hbound : e.start ≤ e.stop ∧ e.stop ≤ byteLength (before ++ (old ++ after)) := by
    rw [byteLength_append, byteLength_append]
    omega
  have hdrop : dropBytes e.stop (before ++ (old ++ after)) = after := by
    rw [hstop, hstart, ← byteLength_append, ← List.append_assoc, dropBytes_byteLength]
  rw [Edit.apply, if_pos hbound, hdrop, hstart, takeBytes_byteLength, List.append_assoc]

/-- Made from the last to the first, the edits exchange their ranges. -/
theorem foldr_apply_of_substituted {offset : Nat} {text result : List Char} {es : List Edit}
    (h : Substituted offset text es result) {before : List Char}
    (hbefore : byteLength before = offset) :
    es.foldr (fun e t => e.apply t) (before ++ text) = before ++ result := by
  induction h generalizing before with
  | keep => rfl
  | @edit offset first old after result e es hstart hstop _ ih =>
    have hplace : byteLength (before ++ (first ++ old)) = e.stop := by
      rw [byteLength_append, byteLength_append, hbefore, hstop, hstart, Nat.add_assoc]
    have hrest := ih hplace
    simp only [List.append_assoc] at hrest
    rw [List.foldr_cons, hrest, ← List.append_assoc before, ← List.append_assoc before]
    refine Edit.apply_append ?_ hstop
    rw [hstart, byteLength_append, hbefore]

theorem eq_of_start_eq {es : List Edit} (h : es.Pairwise fun a b => a.start < b.start)
    {a b : Edit} (ha : a ∈ es) (hb : b ∈ es) (heq : a.start = b.start) : a = b := by
  induction es with
  | nil => simp at ha
  | cons e es ih =>
    obtain ⟨hlater, h⟩ := List.pairwise_cons.1 h
    rcases List.mem_cons.1 ha with rfl | ha'
    · rcases List.mem_cons.1 hb with rfl | hb'
      · rfl
      · have hlt := hlater b hb'
        omega
    · rcases List.mem_cons.1 hb with rfl | hb'
      · have hlt := hlater a ha'
        omega
      · exact ih h ha' hb'

/-- Edits with different starts are made from the last to the first, in whatever order they are
listed. -/
theorem sortBy_of_increasing {es listed : List Edit}
    (hlt : es.Pairwise fun a b => a.start < b.start) (hperm : listed.Perm es) :
    sortBy (fun a b => decide (b.start ≤ a.start)) listed = es.reverse := by
  have hmem {e : Edit} (he : e ∈ sortBy (fun a b => decide (b.start ≤ a.start)) listed) :
      e ∈ es := hperm.mem_iff.1 ((sortBy_perm _ listed).mem_iff.1 he)
  refine List.Perm.eq_of_pairwise ?_ (pairwise_sortBy ?_ ?_ listed) ?_ ?_
  · -- Two edits that start together are one edit.
    intro a b ha hb hab hba
    rw [decide_eq_true_eq] at hab hba
    have heq : a.start = b.start := by omega
    exact eq_of_start_eq hlt (hmem ha) (List.mem_reverse.1 hb) heq
  · intro a b
    simp only [decide_eq_true_eq]
    omega
  · intro a b c
    simp only [decide_eq_true_eq]
    omega
  · refine List.pairwise_reverse.2 (hlt.imp fun hab => ?_)
    rw [decide_eq_true_eq]
    omega
  · exact (sortBy_perm _ listed).trans (hperm.trans es.reverse_perm.symm)

/-- Making the edits substitutes their ranges, in whatever order they are listed. -/
theorem applyEdits_of_substituted {text result : List Char} {es listed : List Edit}
    (h : Substituted 0 text es result) (hlt : es.Pairwise fun a b => a.start < b.start)
    (hperm : listed.Perm es) : applyEdits text listed = result := by
  have hempty : byteLength ([] : List Char) = 0 := rfl
  rw [applyEdits, sortBy_of_increasing hlt hperm, List.foldl_reverse]
  exact foldr_apply_of_substituted h hempty

/-- **Edits that exchange ranges of a text give the same result in whatever order they are
listed.** -/
theorem applyEdits_of_spliced {text result : List Char} {es listed : List Edit}
    (h : Spliced 0 text es result) (hperm : listed.Perm es) : applyEdits text listed = result :=
  applyEdits_of_substituted h.substituted h.increasing hperm

/-- Edits made one after another, each from one place to another of the text that it is made in. -/
inductive Fits : List Char → List Edit → Prop
  | nil {text : List Char} : Fits text []
  | cons {text : List Char} {e : Edit} {es : List Edit} :
      e.start ≤ e.stop → IsPlace 0 text e.start → IsPlace 0 text e.stop →
        Fits (e.apply text) es → Fits text (e :: es)

theorem Fits.append {text : List Char} {a b : List Edit} (ha : Fits text a)
    (hb : Fits (a.foldl Edit.apply text) b) : Fits text (a ++ b) := by
  induction ha with
  | nil => exact hb
  | cons hle hstart hstop _ ih => exact .cons hle hstart hstop (ih hb)

theorem fits_reverse_of_substituted {offset : Nat} {text result : List Char} {es : List Edit}
    (h : Substituted offset text es result) :
    ∀ {before : List Char}, byteLength before = offset → Fits (before ++ text) es.reverse := by
  induction h with
  | keep => exact fun _ => .nil
  | @edit offset first old after result e es hstart hstop hrest ih =>
    intro before hbefore
    have hplace : byteLength (before ++ (first ++ old)) = e.stop := by
      rw [byteLength_append, byteLength_append, hbefore, hstop, hstart, Nat.add_assoc]
    have hmade := foldr_apply_of_substituted hrest hplace
    have hfits := ih hplace
    simp only [List.append_assoc] at hmade hfits
    rw [List.reverse_cons]
    refine hfits.append ?_
    rw [List.foldl_reverse, hmade]
    refine .cons (by omega) ⟨before ++ first, old ++ result, by simp, ?_⟩
      ⟨before ++ (first ++ old), result, by simp, ?_⟩ .nil
    · rw [hstart, byteLength_append, hbefore, Nat.zero_add]
    · rw [hplace, Nat.zero_add]

/-- **Where edits substitute ranges of a text, each of them is made on whole characters**: those to
come are not touched by those already made. -/
theorem fits_of_substituted {text result : List Char} {es listed : List Edit}
    (h : Substituted 0 text es result) (hlt : es.Pairwise fun a b => a.start < b.start)
    (hperm : listed.Perm es) :
    Fits text (sortBy (fun a b => decide (b.start ≤ a.start)) listed) := by
  rw [sortBy_of_increasing hlt hperm]
  have hempty : byteLength ([] : List Char) = 0 := rfl
  exact fits_reverse_of_substituted h hempty

theorem fits_of_spliced {text result : List Char} {es listed : List Edit}
    (h : Spliced 0 text es result) (hperm : listed.Perm es) :
    Fits text (sortBy (fun a b => decide (b.start ≤ a.start)) listed) :=
  fits_of_substituted h.substituted h.increasing hperm

/-! ## Edits that do not overlap -/

/-- The text between two places. -/
theorem exists_between_le {offset : Nat} {text : List Char} {start stop : Nat} (hle : start ≤ stop)
    (hstart : IsPlace offset text start) (hstop : IsPlace offset text stop) :
    ∃ before old after, text = before ++ (old ++ after) ∧
      start = offset + byteLength before ∧ stop = start + byteLength old := by
  obtain ⟨before, tail, rfl, rfl⟩ := hstart
  obtain ⟨before', after, htext, rfl⟩ := hstop
  obtain ⟨old, rfl, rfl⟩ := exists_append_of_byteLength_le htext (by omega)
  exact ⟨before, old, after, rfl, rfl, by rw [byteLength_append]; omega⟩

/-- The text between two different places. -/
theorem exists_between {offset : Nat} {text : List Char} {start stop : Nat} (hlt : start < stop)
    (hstart : IsPlace offset text start) (hstop : IsPlace offset text stop) :
    ∃ before old after, text = before ++ (old ++ after) ∧ old ≠ [] ∧
      start = offset + byteLength before ∧ stop = start + byteLength old := by
  obtain ⟨before, old, after, htext, hbefore, hold⟩ :=
    exists_between_le (Nat.le_of_lt hlt) hstart hstop
  refine ⟨before, old, after, htext, ?_, hbefore, hold⟩
  rintro rfl
  rw [byteLength_nil] at hold
  omega

/-- The later places of a text are places of what stands behind an earlier one. -/
theorem IsPlace.behind {offset : Nat} {before after : List Char} {n : Nat}
    (h : IsPlace offset (before ++ after) n) (hle : offset + byteLength before ≤ n) :
    IsPlace (offset + byteLength before) after n := by
  obtain ⟨a, b, hab, rfl⟩ := h
  obtain ⟨m, rfl, rfl⟩ := exists_append_of_byteLength_le hab (by omega)
  exact ⟨m, b, rfl, by rw [byteLength_append, Nat.add_assoc]⟩

/-- Edits in order, each from one place of the text to another, substitute their ranges. -/
theorem exists_substituted {es : List Edit} :
    ∀ {offset : Nat} {text : List Char},
      (∀ e ∈ es, e.start ≤ e.stop ∧ IsPlace offset text e.start ∧ IsPlace offset text e.stop) →
        (es.Pairwise fun a b => a.stop ≤ b.start) →
          ∃ result, Substituted offset text es result := by
  induction es with
  | nil => exact fun _ _ => ⟨_, .keep⟩
  | cons e es ih =>
    intro offset text hplaces horder
    obtain ⟨hlater, horder⟩ := List.pairwise_cons.1 horder
    obtain ⟨hle, hstart, hstop⟩ := hplaces e (List.mem_cons_self ..)
    obtain ⟨before, old, after, rfl, hstart', hstop'⟩ := exists_between_le hle hstart hstop
    have hplace : offset + byteLength (before ++ old) = e.stop := by
      rw [hstop', hstart', byteLength_append, Nat.add_assoc]
    have hbehind {n : Nat} (hle : e.stop ≤ n) (hn : IsPlace offset (before ++ (old ++ after)) n) :
        IsPlace e.stop after n := by
      rw [← hplace] at hle ⊢
      rw [← List.append_assoc] at hn
      exact hn.behind hle
    have hrest : ∀ f ∈ es, f.start ≤ f.stop ∧ IsPlace e.stop after f.start ∧
        IsPlace e.stop after f.stop := by
      intro f hf
      obtain ⟨hf', hfstart, hfstop⟩ := hplaces f (List.mem_cons_of_mem _ hf)
      have hle := hlater f hf
      exact ⟨hf', hbehind hle hfstart, hbehind (by omega) hfstop⟩
    obtain ⟨result, hresult⟩ := ih hrest horder
    exact ⟨_, .edit hstart' hstop' hresult⟩

/-- Edits in order, each from one place of the text to a later one, exchange their ranges. -/
theorem exists_spliced {es : List Edit} {offset : Nat} {text : List Char}
    (hplaces : ∀ e ∈ es, e.start < e.stop ∧ IsPlace offset text e.start ∧
      IsPlace offset text e.stop)
    (horder : es.Pairwise fun a b => a.stop ≤ b.start) :
    ∃ result, Spliced offset text es result := by
  obtain ⟨result, hresult⟩ := exists_substituted
    (fun e he => ⟨Nat.le_of_lt (hplaces e he).1, (hplaces e he).2⟩) horder
  exact ⟨result, hresult.spliced fun e he => (hplaces e he).1⟩

/-- Edits no two of which overlap or start together substitute their ranges, in the order in which
they stand in the text. -/
theorem exists_substituted_of_disjoint {text : List Char} {es : List Edit}
    (hplaces : ∀ e ∈ es, e.start ≤ e.stop ∧ IsPlace 0 text e.start ∧ IsPlace 0 text e.stop)
    (hdisjoint : es.Pairwise Edit.Disjoint) (hstarts : es.Pairwise fun a b => a.start ≠ b.start) :
    ∃ ordered, ordered.Perm es ∧ (ordered.Pairwise fun a b => a.start < b.start) ∧
      ∃ result, Substituted 0 text ordered result := by
  have hperm := sortBy_perm (fun a b : Edit => decide (a.start ≤ b.start)) es
  have hsorted : (sortBy (fun a b : Edit => decide (a.start ≤ b.start)) es).Pairwise
      fun a b => decide (a.start ≤ b.start) = true :=
    pairwise_sortBy (fun a b => by simp only [decide_eq_true_eq]; omega)
      (fun a b c => by simp only [decide_eq_true_eq]; omega) es
  have hsymm {a b : Edit} (h : a.Disjoint b) : b.Disjoint a := h.symm
  have hapart := (hperm.pairwise_iff (fun h => hsymm h)).2 hdisjoint
  have hdiffer := (hperm.pairwise_iff (fun h => Ne.symm h)).2 hstarts
  have hlt : (sortBy (fun a b : Edit => decide (a.start ≤ b.start)) es).Pairwise
      fun a b => a.start < b.start := by
    refine (hsorted.and hdiffer).imp fun {a b} hab => ?_
    obtain ⟨hle, hne⟩ := hab
    rw [decide_eq_true_eq] at hle
    omega
  refine ⟨_, hperm, hlt, exists_substituted (fun e he => hplaces e (hperm.mem_iff.1 he)) ?_⟩
  refine (hlt.and hapart).imp_of_mem fun {a b} _ hb hab => ?_
  obtain ⟨hlt, hab | hba⟩ := hab
  · exact hab
  · have hb := (hplaces b (hperm.mem_iff.1 hb)).1
    omega

/-- **Edits that share no byte exchange their ranges**, in the order in which they stand in the
text. -/
theorem exists_spliced_of_disjoint {text : List Char} {es : List Edit}
    (hplaces : ∀ e ∈ es, e.start < e.stop ∧ IsPlace 0 text e.start ∧ IsPlace 0 text e.stop)
    (hdisjoint : es.Pairwise Edit.Disjoint) :
    ∃ ordered, ordered.Perm es ∧ Spliced 0 text ordered (applyEdits text es) := by
  have hstarts : es.Pairwise fun a b => a.start ≠ b.start := by
    refine hdisjoint.imp_of_mem fun {a b} ha hb hab => ?_
    have halt := (hplaces a ha).1
    have hblt := (hplaces b hb).1
    rcases hab with hab | hba <;> omega
  obtain ⟨ordered, hperm, hlt, result, hresult⟩ := exists_substituted_of_disjoint
    (fun e he => ⟨Nat.le_of_lt (hplaces e he).1, (hplaces e he).2⟩) hdisjoint hstarts
  rw [applyEdits_of_substituted hresult hlt hperm.symm]
  exact ⟨ordered, hperm, hresult.spliced fun e he => (hplaces e (hperm.mem_iff.1 he)).1⟩

/-- **Edits are made at once.** Edits between places of the text, no two of which overlap or start
together, are listed in any order. Making them gives the text read from left to right with each
range exchanged. None is passed over, for each is made from one place to another of the text as it is
by then; and no other order of the list gives another result. -/
theorem applyEdits_substitutes {text : List Char} {es : List Edit}
    (hplaces : ∀ e ∈ es, e.start ≤ e.stop ∧ IsPlace 0 text e.start ∧ IsPlace 0 text e.stop)
    (hdisjoint : es.Pairwise Edit.Disjoint) (hstarts : es.Pairwise fun a b => a.start ≠ b.start) :
    (∃ ordered, ordered.Perm es ∧ (ordered.Pairwise fun a b => a.start < b.start) ∧
      Substituted 0 text ordered (applyEdits text es)) ∧
    Fits text (sortBy (fun a b => b.start ≤ a.start) es) ∧
    ∀ listed : List Edit, listed.Perm es → applyEdits text listed = applyEdits text es := by
  obtain ⟨ordered, hperm, hlt, result, hresult⟩ :=
    exists_substituted_of_disjoint hplaces hdisjoint hstarts
  have hmade := applyEdits_of_substituted hresult hlt hperm.symm
  refine ⟨⟨ordered, hperm, hlt, hmade ▸ hresult⟩, fits_of_substituted hresult hlt hperm.symm, ?_⟩
  intro listed hlisted
  rw [hmade, applyEdits_of_substituted hresult hlt (hlisted.trans hperm.symm)]

/-- An insertion at the end, a longer text in front and a character of two bytes taken out, in this
order. -/
def threeEdits : List Edit := [⟨4, 4, ['!']⟩, ⟨0, 1, "long".toList⟩, ⟨1, 3, []⟩]

/-- Listed backwards, the three edits give the same text. -/
theorem threeEdits_at_once :
    (∀ e ∈ threeEdits, e.start ≤ e.stop ∧ IsPlace 0 "aéb".toList e.start ∧
      IsPlace 0 "aéb".toList e.stop) ∧
    threeEdits.Pairwise Edit.Disjoint ∧ (threeEdits.Pairwise fun a b => a.start ≠ b.start) ∧
    applyEdits "aéb".toList threeEdits.reverse = "longb!".toList := by
  have hplaces : ∀ e ∈ threeEdits, e.start ≤ e.stop ∧ IsPlace 0 "aéb".toList e.start ∧
      IsPlace 0 "aéb".toList e.stop := by
    simp only [threeEdits, List.forall_mem_cons]
    have hfirst : IsPlace 0 "aéb".toList 0 := ⟨[], "aéb".toList, rfl, rfl⟩
    have hsecond : IsPlace 0 "aéb".toList 1 := ⟨['a'], "éb".toList, rfl, rfl⟩
    have hthird : IsPlace 0 "aéb".toList 3 := ⟨"aé".toList, ['b'], rfl, rfl⟩
    have hlast : IsPlace 0 "aéb".toList 4 := ⟨"aéb".toList, [], rfl, rfl⟩
    exact ⟨⟨by decide, hlast, hlast⟩, ⟨by decide, hfirst, hsecond⟩, ⟨by decide, hsecond, hthird⟩,
      by simp⟩
  have hdisjoint : threeEdits.Pairwise Edit.Disjoint := by simp [threeEdits, Edit.Disjoint]
  have hstarts : threeEdits.Pairwise fun a b => a.start ≠ b.start := by simp [threeEdits]
  refine ⟨hplaces, hdisjoint, hstarts, ?_⟩
  obtain ⟨-, -, horder⟩ := applyEdits_substitutes hplaces hdisjoint hstarts
  rw [horder _ threeEdits.reverse_perm]
  decide +kernel

/-- **Edits inside of given ranges exchange at most these ranges.** -/
theorem exists_spliced_ranges {ranges : List (Nat × Nat)} :
    ∀ {offset : Nat} {text result : List Char} {es : List Edit}, Spliced offset text es result →
      (∀ r ∈ ranges, r.1 < r.2 ∧ IsPlace offset text r.1 ∧ IsPlace offset text r.2) →
        (ranges.Pairwise fun a b => a.2 ≤ b.1) →
          (∀ e ∈ es, ∃ r ∈ ranges, r.1 ≤ e.start ∧ e.stop ≤ r.2) →
            ∃ whole : List Edit, whole.map (fun e => (e.start, e.stop)) = ranges ∧
              Spliced offset text whole result := by
  induction ranges with
  | nil =>
    intro offset text result es h _ _ hinside
    cases h with
    | keep => exact ⟨[], rfl, .keep⟩
    | edit =>
      obtain ⟨r, hr, -⟩ := hinside _ (List.mem_cons_self ..)
      simp at hr
  | cons r ranges ih =>
    intro offset text result es h hplaces horder hinside
    obtain ⟨hlater, horder⟩ := List.pairwise_cons.1 horder
    obtain ⟨hlt, hstart, hstop⟩ := hplaces r (List.mem_cons_self ..)
    obtain ⟨before, old, after, rfl, hold, hstart', hstop'⟩ := exists_between hlt hstart hstop
    -- No edit starts before the first range, so the text before it is kept.
    obtain ⟨none, es, rnone, result, rfl, rfl, hnone, hrest⟩ := h.split rfl fun e he => by
      obtain ⟨s, hs, hle, -⟩ := hinside e he
      rcases List.mem_cons.1 hs with rfl | hs
      · omega
      · have hrs := hlater s hs
        omega
    have hempty : none = [] := by
      refine List.eq_nil_iff_forall_not_mem.2 fun e he => ?_
      obtain ⟨s, hs, hle, -⟩ := hinside e (List.mem_append_left _ he)
      have hbounds := hnone.bounds e he
      rcases List.mem_cons.1 hs with rfl | hs
      · omega
      · have hrs := hlater s hs
        omega
    subst hempty
    obtain ⟨inner, es, rinner, result, rfl, rfl, hinner, hafter⟩ := hrest.split rfl fun e he => by
      obtain ⟨s, hs, hle, hle'⟩ := hinside e he
      rcases List.mem_cons.1 hs with rfl | hs
      · omega
      · have hrs := hlater s hs
        omega
    have hplace : offset + byteLength before + byteLength old = r.2 := by omega
    have hplace' : offset + byteLength (before ++ old) = r.2 := by
      rw [byteLength_append]
      omega
    rw [hplace] at hafter
    have hbehind {n : Nat} (hle : r.2 ≤ n) (hn : IsPlace offset (before ++ (old ++ after)) n) :
        IsPlace r.2 after n := by
      rw [← hplace'] at hle ⊢
      rw [← List.append_assoc] at hn
      exact hn.behind hle
    obtain ⟨whole, hmap, hwhole⟩ := ih hafter (fun s hs => by
        obtain ⟨hs', hsstart, hsstop⟩ := hplaces s (List.mem_cons_of_mem _ hs)
        have hle := hlater s hs
        exact ⟨hs', hbehind hle hsstart, hbehind (by omega) hsstop⟩) horder fun e he => by
      obtain ⟨s, hs, hle, hle'⟩ := hinside e (List.mem_append_right _ (List.mem_append_right _ he))
      have hbounds := hafter.bounds e he
      rcases List.mem_cons.1 hs with rfl | hs
      · omega
      · exact ⟨s, hs, hle, hle'⟩
    refine ⟨⟨r.1, r.2, rinner⟩ :: whole, by rw [List.map_cons, hmap], ?_⟩
    cases hnone with
    | keep => exact .edit hold hstart' hstop' hwhole

end PinnedImports.Text
