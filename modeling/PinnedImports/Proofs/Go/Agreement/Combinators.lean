import PinnedImports.Proofs.Go.Similar

/-!
# Parsers that agree on two texts

Two parsers agree on the two texts of a seam if from the same place they both fail or both succeed,
with related values and at the same place (`Agree`). Agreement is kept by the combinators of the
grammar, so that of a rule follows from that of its parts. How far a place lies from the end is
bounded, because rules only agree so far as they have been tied together.
-/

set_option autoImplicit false

namespace PinnedImports.Go

open PinnedImports.Go.Parser

namespace Seam

variable {α β γ δ : Type} {s : Seam}

/-- Two parsers fail together or come to the same place with related values. The flag tells whether
a token has just ended there. -/
def AgreeAt (s : Seam) (behind : Bool) (R : α → β → Prop) (p : Parser α) (p' : Parser β)
    (cs cs' : List Char) : Prop :=
  Option.Rel (fun r r' => R r.1 r'.1 ∧ s.Like behind r.2 r'.2) (p.read cs) (p'.read cs')

/-- Two parsers agree from every place with less left than the bounds. The flags tell whether a
token has just ended before and behind them. -/
def Agree (s : Seam) (bounds : Nat × Nat) (before behind : Bool) (R : α → β → Prop)
    (p : Parser α) (p' : Parser β) : Prop :=
  ∀ ⦃cs cs' : List Char⦄, s.Like before cs cs' → Text.byteLength cs < bounds.1 →
    Text.byteLength cs' < bounds.2 → s.AgreeAt behind R p p' cs cs'

/-- Bounds that admit a place itself, where the given ones only admit places behind it. -/
abbrev including (bounds : Nat × Nat) : Nat × Nat := (bounds.1 + 1, bounds.2 + 1)

/-- Any two values. -/
abbrev Any : α → β → Prop := fun _ _ => True

variable {bounds : Nat × Nat} {before middle behind : Bool} {R : α → β → Prop} {S : γ → δ → Prop}
  {p q : Parser α} {p' q' : Parser β}

/-! ## At one place -/

section

variable {cs cs' : List Char}

theorem AgreeAt.of_none (h : p.read cs = none) (h' : p'.read cs' = none) :
    s.AgreeAt behind R p p' cs cs' := by
  rw [AgreeAt, h, h']
  exact .none

theorem AgreeAt.of_some {a : α} {b : β} {rest rest' : List Char}
    (h : p.read cs = some (a, rest)) (h' : p'.read cs' = some (b, rest')) (hab : R a b)
    (hrest : s.Like behind rest rest') : s.AgreeAt behind R p p' cs cs' := by
  rw [AgreeAt, h, h']
  exact .some ⟨hab, hrest⟩

theorem AgreeAt.cases (h : s.AgreeAt behind R p p' cs cs') :
    (p.read cs = none ∧ p'.read cs' = none) ∨
      ∃ a rest b rest', p.read cs = some (a, rest) ∧ p'.read cs' = some (b, rest') ∧ R a b ∧
        s.Like behind rest rest' := by
  rw [AgreeAt] at h
  generalize p.read cs = found at h ⊢
  generalize p'.read cs' = found' at h ⊢
  cases h with
  | none => exact .inl ⟨rfl, rfl⟩
  | some hr => exact .inr ⟨_, _, _, _, rfl, rfl, hr⟩

theorem AgreeAt.bind {f : α → Parser γ} {f' : β → Parser δ} (hp : s.AgreeAt middle R p p' cs cs')
    (hf : ∀ a rest b rest', p.read cs = some (a, rest) → p'.read cs' = some (b, rest') → R a b →
      s.Like middle rest rest' → s.AgreeAt behind S (f a) (f' b) rest rest') :
    s.AgreeAt behind S (p >>= f) (p' >>= f') cs cs' := by
  rcases hp.cases with ⟨hnone, hnone'⟩ | ⟨a, rest, b, rest', hread, hread', hab, hrest⟩
  · refine .of_none ?_ ?_
    · rw [read_bind, hnone, Option.bind_none]
    · rw [read_bind, hnone', Option.bind_none]
  · have hbehind := hf a rest b rest' hread hread' hab hrest
    rw [AgreeAt, read_bind, read_bind, hread, hread', Option.bind_some, Option.bind_some]
    exact hbehind

theorem AgreeAt.orElse (hp : s.AgreeAt behind R p p' cs cs') (hq : s.AgreeAt behind R q q' cs cs') :
    s.AgreeAt behind R (p <|> q) (p' <|> q') cs cs' := by
  rw [AgreeAt, read_orElse, read_orElse]
  rcases hp.cases with ⟨hnone, hnone'⟩ | ⟨a, rest, b, rest', hread, hread', hab, hrest⟩
  · rw [hnone, hnone', Option.none_or, Option.none_or]
    exact hq
  · rw [hread, hread']
    exact .some ⟨hab, hrest⟩

theorem AgreeAt.mono {behind' : Bool} {R' : α → β → Prop} (h : s.AgreeAt behind R p p' cs cs')
    (hR : ∀ a b, R a b → R' a b)
    (hlike : ∀ {rest rest'}, s.Like behind rest rest' → s.Like behind' rest rest') :
    s.AgreeAt behind' R' p p' cs cs' := by
  rcases h.cases with ⟨hnone, hnone'⟩ | ⟨a, rest, b, rest', hread, hread', hab, hrest⟩
  · exact .of_none hnone hnone'
  · exact .of_some hread hread' (hR a b hab) (hlike hrest)

end

/-! ## Combinators -/

theorem bind_bind (p : Parser α) (f : α → Parser β) (g : β → Parser γ) :
    p >>= f >>= g = p >>= fun a => f a >>= g := by
  funext c
  show Parser.bind (Parser.bind p f) g c = Parser.bind p (fun a => Parser.bind (f a) g) c
  unfold Parser.bind
  cases p c with
  | none => rfl
  | some r =>
    obtain ⟨⟨a, mid⟩, reached⟩ := r
    simp only
    cases f a mid with
    | none => rfl
    | some r' =>
      obtain ⟨⟨b, mid'⟩, reached'⟩ := r'
      simp only
      cases g b mid' <;> rfl

theorem Agree.congr_right (h : s.Agree bounds before behind R p q') (heq : p' = q') :
    s.Agree bounds before behind R p p' := heq ▸ h

theorem Agree.loosen (h : s.Agree bounds before true R p p') :
    s.Agree bounds before behind R p p' :=
  fun _ _ hlike hleft hleft' => (h hlike hleft hleft').mono (fun _ _ => id) Like.of_true

theorem Agree.mono (h : s.Agree bounds before behind R p p') {R' : α → β → Prop}
    (hR : ∀ a b, R a b → R' a b) : s.Agree bounds before behind R' p p' :=
  fun _ _ hlike hleft hleft' => (h hlike hleft hleft').mono hR id

theorem Agree.of_including (h : s.Agree (including bounds) before behind R p p') :
    s.Agree bounds before behind R p p' :=
  fun _ _ hlike hleft hleft' => h hlike (Nat.lt_succ_of_lt hleft) (Nat.lt_succ_of_lt hleft')

theorem agree_pure {a : α} {b : β} (h : R a b) :
    s.Agree bounds before before R (pure a) (pure b) :=
  fun _ _ hlike _ _ => .of_some (read_pure ..) (read_pure ..) h hlike

theorem agree_failure :
    s.Agree bounds before behind R (failure : Parser α) (failure : Parser β) :=
  fun _ _ _ _ _ => .of_none (read_failure _) (read_failure _)

theorem byteLength_le_of_read {text rest : List Char} {a : α} (h : p.read text = some (a, rest)) :
    Text.byteLength rest ≤ Text.byteLength text :=
  Parser.byteLength_le_of_suffix (suffix_of_read h)

theorem byteLength_lt_of_read (hp : p.Advances) {text rest : List Char} {a : α}
    (h : p.read text = some (a, rest)) : Text.byteLength rest < Text.byteLength text := by
  have hlength := hp h
  obtain ⟨passed, rfl⟩ := suffix_of_read h
  rw [List.length_append] at hlength
  have hpassed : passed ≠ [] := by
    rintro rfl
    simp at hlength
  have hpos := Text.byteLength_pos hpassed
  rw [Text.byteLength_append]
  omega

theorem Agree.bind {f : α → Parser γ} {f' : β → Parser δ}
    (hp : s.Agree bounds before middle R p p')
    (hf : ∀ a b, R a b → s.Agree bounds middle behind S (f a) (f' b)) :
    s.Agree bounds before behind S (p >>= f) (p' >>= f') :=
  fun _ _ hlike hleft hleft' => (hp hlike hleft hleft').bind fun a _ b _ hread hread' hab hrest =>
    hf a b hab hrest ((byteLength_le_of_read hread).trans_lt hleft)
      ((byteLength_le_of_read hread').trans_lt hleft')

/-- Behind a parser that advances only places behind the first one matter. -/
theorem Agree.bind_advancing {f : α → Parser γ} {f' : β → Parser δ}
    (hp : s.Agree (including bounds) before middle R p p') (hadvances : p.Advances)
    (hadvances' : p'.Advances)
    (hf : ∀ a b, R a b → s.Agree bounds middle behind S (f a) (f' b)) :
    s.Agree (including bounds) before behind S (p >>= f) (p' >>= f') :=
  fun _ _ hlike hleft hleft' => (hp hlike hleft hleft').bind fun a _ b _ hread hread' hab hrest =>
    hf a b hab hrest
      ((byteLength_lt_of_read hadvances hread).trans_le (Nat.le_of_lt_succ hleft))
      ((byteLength_lt_of_read hadvances' hread').trans_le (Nat.le_of_lt_succ hleft'))

theorem Agree.orElse (hp : s.Agree bounds before behind R p p')
    (hq : s.Agree bounds before behind R q q') :
    s.Agree bounds before behind R (p <|> q) (p' <|> q') :=
  fun _ _ hlike hleft hleft' => (hp hlike hleft hleft').orElse (hq hlike hleft hleft')

theorem Agree.map {f : α → γ} {f' : β → δ} (hp : s.Agree bounds before behind R p p')
    (hf : ∀ a b, R a b → S (f a) (f' b)) :
    s.Agree bounds before behind S (f <$> p) (f' <$> p') :=
  Agree.bind hp fun a b hab => agree_pure (hf a b hab)

theorem Agree.seqRight {p : Parser α} {p' : Parser β} {q : Parser γ} {q' : Parser δ}
    (hp : s.Agree bounds before middle R p p') (hq : s.Agree bounds middle behind S q q') :
    s.Agree bounds before behind S (p *> q) (p' *> q') :=
  Agree.bind hp fun _ _ _ => hq

theorem Agree.seqLeft {p : Parser α} {p' : Parser β} {q : Parser γ} {q' : Parser δ}
    (hp : s.Agree bounds before middle R p p') (hq : s.Agree bounds middle behind S q q') :
    s.Agree bounds before behind R (p <* q) (p' <* q') :=
  Agree.bind hp fun _ _ hab => Agree.bind hq fun _ _ _ => agree_pure hab

theorem Agree.ite {c : Prop} [Decidable c] (hp : c → s.Agree bounds before behind R p p')
    (hq : ¬c → s.Agree bounds before behind R q q') :
    s.Agree bounds before behind R (if c then p else q) (if c then p' else q') := by
  split
  · rename_i hc
    exact hp hc
  · rename_i hc
    exact hq hc

theorem agree_require {condition condition' : Bool} (h : condition' = condition) :
    s.Agree bounds before before Any (require condition)
      (require condition') := by
  subst h
  exact Agree.ite (fun _ => agree_pure trivial) fun _ => agree_failure

theorem Agree.optional (hp : s.Agree bounds before before R p p') :
    s.Agree bounds before before (Option.Rel R) (Parser.optional p) (Parser.optional p') :=
  (hp.map fun _ _ => .some).orElse (agree_pure .none)

/-- The values are taken as often on both sides. -/
theorem Agree.many (hp : s.Agree bounds before before R p p') (hadvances : p.Advances)
    (hadvances' : p'.Advances) :
    s.Agree bounds before before (List.Forall₂ R) (Parser.many p) (Parser.many p') := by
  intro cs
  induction hlength : cs.length using Nat.strong_induction_on generalizing cs with
  | _ n ih =>
    intro cs' hlike hleft hleft'
    rcases (hp hlike hleft hleft').cases with ⟨hnone, hnone'⟩ |
        ⟨a, rest, b, rest', hread, hread', hab, hrest⟩
    · exact .of_some (read_many_of_none hnone) (read_many_of_none hnone') .nil hlike
    · have hmore := ih rest.length (hlength ▸ hadvances hread) rfl hrest
        ((byteLength_le_of_read hread).trans_lt hleft)
        ((byteLength_le_of_read hread').trans_lt hleft')
      rw [AgreeAt, read_many_of_some hadvances hread, read_many_of_some hadvances' hread']
      rcases hmore.cases with ⟨hnone, hnone'⟩ |
          ⟨as, last, bs, last', hmany, hmany', habs, hlast⟩
      · rw [hnone, hnone']
        exact .none
      · rw [hmany, hmany']
        exact .some ⟨.cons hab habs, hlast⟩

/-! ## The first that leads on -/

theorem read_firstThatLeads (first second : Parser α) (next : α → Parser γ) (text : List Char) :
    (firstThatLeads first second next).read text =
      match first.read text with
      | none => (second >>= next).read text
      | some (a, mid) =>
        ((next a).read mid).or ((second.read text).bind fun r =>
          if Text.byteLength r.2 = Text.byteLength mid then none else (next r.1).read r.2) := by
  have hread : ∀ {ε : Type} (p : Parser ε), p.read text =
      (p (.start text)).map fun r => (r.1.1, r.1.2.rest) := fun p => rfl
  rw [hread first, hread (firstThatLeads first second next), Parser.firstThatLeads]
  cases first (.start text) with
  | none => exact (hread (second >>= next)).symm
  | some found =>
    obtain ⟨⟨a, mid⟩, reached⟩ := found
    simp only [Option.map_some, ← read_eq]
    cases next a mid with
    | some found => rfl
    | none =>
      rw [hread second]
      cases second (.start text) with
      | none => rfl
      | some found =>
        obtain ⟨⟨b, mid'⟩, reached'⟩ := found
        simp only [Option.map_some, Option.bind_some, mid.left_eq, mid'.left_eq, Option.map_none,
          Option.none_or, ← read_eq]
        split
        · rfl
        · cases next b mid' <;> rfl

/-- The same of two readings leads on, because they end at the same place in both texts or in none.
-/
theorem Agree.firstThatLeads {next : α → Parser γ} {next' : β → Parser δ}
    (hfirst : s.Agree bounds before true R p p') (hsecond : s.Agree bounds before true R q q')
    (hnext : ∀ a b, R a b → s.Agree bounds true behind S (next a) (next' b)) :
    s.Agree bounds before behind S (firstThatLeads p q next) (firstThatLeads p' q' next') := by
  intro cs cs' hlike hleft hleft'
  have hle := fun {p : Parser α} {a : α} {rest} (h : p.read cs = some (a, rest)) =>
    (byteLength_le_of_read h).trans_lt hleft
  have hle' := fun {p : Parser β} {b : β} {rest} (h : p.read cs' = some (b, rest)) =>
    (byteLength_le_of_read h).trans_lt hleft'
  have hback := hsecond.bind hnext hlike hleft hleft'
  rw [AgreeAt, read_firstThatLeads, read_firstThatLeads]
  rcases (hfirst hlike hleft hleft').cases with ⟨hnone, hnone'⟩ |
      ⟨a, rest, b, rest', hread, hread', hab, hrest⟩
  · rw [hnone, hnone']
    exact hback
  · rw [hread, hread']
    simp only
    rcases (hnext a b hab hrest (hle hread) (hle' hread')).cases with ⟨hnone, hnone'⟩ |
        ⟨c, last, d, last', hnext, hnext', hcd, hlast⟩
    · rw [hnone, hnone', Option.none_or, Option.none_or]
      rcases (hsecond hlike hleft hleft').cases with ⟨hnone, hnone'⟩ |
          ⟨c, mid, d, mid', hmid, hmid', hcd, hmids⟩
      · rw [hnone, hnone']
        exact .none
      · rw [hmid, hmid', Option.bind_some, Option.bind_some]
        simp only [hmids.byteLength_eq_iff hrest]
        split
        · exact .none
        · exact hnext c d hcd hmids (hle hmid) (hle' hmid')
    · rw [hnext, hnext']
      exact .some ⟨hcd, hlast⟩

end Seam

end PinnedImports.Go
