import PinnedImports.Go.Source

/-!
# What parsers read

A cursor is determined by the characters that are left, so a parser is a function of them.
`Parser.read` is that function: from the characters that are left to a value and the characters that
are left behind it. Each combinator has one equation for `read`, and with these equations the rules
of the grammar are opened without mention of cursors.
-/

set_option autoImplicit false

namespace PinnedImports.Go

@[simp] theorem Cursor.rest_start (text : List Char) : (Cursor.start text).rest = text := rfl

@[simp] theorem Cursor.start_rest (c : Cursor) : Cursor.start c.rest = c := Cursor.ext_rest rfl

namespace Parser

variable {α β : Type}

/-- The value of a parser and the characters left behind it. -/
def read (p : Parser α) (text : List Char) : Option (α × List Char) :=
  (p (.start text)).map fun r => (r.1.1, r.1.2.rest)

theorem read_eq (p : Parser α) (c : Cursor) :
    (p c).map (fun r => (r.1.1, r.1.2.rest)) = p.read c.rest := by
  rw [read, Cursor.start_rest]

@[simp] theorem read_pure (a : α) (text : List Char) :
    (pure a : Parser α).read text = some (a, text) := rfl

@[simp] theorem read_bind (p : Parser α) (f : α → Parser β) (text : List Char) :
    (p >>= f).read text = (p.read text).bind fun r => (f r.1).read r.2 := by
  have hbind : (p >>= f).read text =
      (Parser.bind p f (.start text)).map fun r => (r.1.1, r.1.2.rest) := rfl
  rw [hbind, read]
  unfold Parser.bind
  cases p (.start text) with
  | none => rfl
  | some found =>
    obtain ⟨⟨a, mid⟩, reached⟩ := found
    show _ = (f a).read mid.rest
    rw [← read_eq]
    simp only
    cases f a mid <;> rfl

@[simp] theorem read_map (f : α → β) (p : Parser α) (text : List Char) :
    (f <$> p).read text = (p.read text).map fun r => (f r.1, r.2) := by
  have h : f <$> p = p >>= fun a => pure (f a) := rfl
  rw [h, read_bind]
  cases p.read text <;> rfl

@[simp] theorem read_seqLeft (p : Parser α) (q : Parser β) (text : List Char) :
    (p <* q).read text = (p.read text).bind fun r => (q.read r.2).map fun s => (r.1, s.2) := by
  have h : p <* q = p >>= fun a => q >>= fun _ => pure a := rfl
  rw [h, read_bind]
  congr 1
  funext r
  rw [read_bind]
  cases q.read r.2 <;> rfl

@[simp] theorem read_seqRight (p : Parser α) (q : Parser β) (text : List Char) :
    (p *> q).read text = (p.read text).bind fun r => q.read r.2 := by
  have h : p *> q = p >>= fun _ => q := rfl
  rw [h, read_bind]

@[simp] theorem read_failure (text : List Char) : (failure : Parser α).read text = none := rfl

@[simp] theorem read_orElse (p q : Parser α) (text : List Char) :
    (p <|> q).read text = (p.read text).or (q.read text) := by
  have h : (p <|> q) = Parser.orElse p fun _ => q := rfl
  rw [h, read, read, read, Parser.orElse]
  cases p (.start text) <;> rfl

@[simp] theorem read_look (f : List Char → α) (text : List Char) :
    (look f).read text = some (f text, text) := rfl

@[simp] theorem read_left (text : List Char) :
    left.read text = some (Text.byteLength text, text) := rfl

@[simp] theorem read_pass (measure : Measure) (text : List Char) :
    (pass measure).read text = (measure text).map fun n => (text.take n, text.drop n) := by
  rw [read, pass, Cursor.rest_start]
  cases measure text <;> rfl

@[simp] theorem read_require (condition : Bool) (text : List Char) :
    (require condition).read text = if condition then some ((), text) else none := by
  rw [require]
  split <;> rfl

theorem read_optional (p : Parser α) (text : List Char) :
    (Parser.optional p).read text =
      some (((p.read text).map fun r => (some r.1, r.2)).getD (none, text)) := by
  rw [Parser.optional, read_orElse, read_map, read_pure]
  cases p.read text <;> rfl

/-- What is left behind a parser is the end of what was left before it. -/
theorem suffix_of_read {p : Parser α} {text rest : List Char} {a : α}
    (h : p.read text = some (a, rest)) : rest <:+ text := by
  rw [read, Option.map_eq_some_iff] at h
  obtain ⟨⟨r, reached⟩, -, hr⟩ := h
  rw [Prod.mk.injEq] at hr
  rw [← hr.2]
  exact reached

theorem run?_eq (p : Parser α) (text : List Char) : p.run? text = (p.read text).map (·.1) := by
  rw [run?, read, Option.map_map]
  rfl

/-! ## Repetition -/

/-- A parser that passes at least one character when it succeeds. -/
def Advances (p : Parser α) : Prop :=
  ∀ ⦃text rest : List Char⦄ ⦃a : α⦄, p.read text = some (a, rest) → rest.length < text.length

theorem Advances.bind {p : Parser α} (hp : p.Advances) (f : α → Parser β) :
    (p >>= f).Advances := by
  intro text rest b h
  rw [read_bind, Option.bind_eq_some_iff] at h
  obtain ⟨⟨a, mid⟩, ha, hb⟩ := h
  have hmid := hp ha
  have hrest := (suffix_of_read hb).length_le
  simp only at hrest
  omega

theorem read_upTo_succ (p : Parser α) (n : Nat) (text : List Char) :
    (p.upTo (n + 1)).read text =
      ((p.read text).bind fun r => ((p.upTo n).read r.2).map fun s => (r.1 :: s.1, s.2)).or
        (some ([], text)) := by
  rw [upTo, read_orElse, read_bind, read_pure]
  congr 2
  funext r
  rw [read_bind]
  cases (p.upTo n).read r.2 <;> rfl

/-- A parser that advances fails once the text is used up, so a bound above the length of the text
is never reached. -/
theorem read_upTo_congr {p : Parser α} (hp : p.Advances) :
    ∀ (n m : Nat) (text : List Char), text.length < n → text.length < m →
      (p.upTo n).read text = (p.upTo m).read text := by
  intro n
  induction n with
  | zero => intro m text h; omega
  | succ n ih =>
    intro m text hn hm
    obtain ⟨m, rfl⟩ : ∃ k, m = k + 1 := ⟨m - 1, by omega⟩
    rw [read_upTo_succ, read_upTo_succ]
    congr 1
    cases hr : p.read text with
    | none => rfl
    | some r =>
      have hlt := hp hr
      rw [Option.bind_some, Option.bind_some, ih m r.2 (by omega) (by omega)]

theorem read_many (p : Parser α) (text : List Char) :
    (many p).read text = (p.upTo (text.length + 1)).read text := by
  rw [many, read_bind, read_look, Option.bind_some]

theorem exists_read_many (p : Parser α) (text : List Char) :
    ∃ found, (many p).read text = some found := by
  rw [read_many, read_upTo_succ]
  cases (p.read text).bind _ with
  | none => exact ⟨_, rfl⟩
  | some found => exact ⟨found, rfl⟩

theorem read_many_of_none {p : Parser α} {text : List Char} (h : p.read text = none) :
    (many p).read text = some ([], text) := by
  rw [read_many, read_upTo_succ, h]
  rfl

theorem read_many_of_some {p : Parser α} (hp : p.Advances) {text rest : List Char} {a : α}
    (h : p.read text = some (a, rest)) :
    (many p).read text = ((many p).read rest).map fun s => (a :: s.1, s.2) := by
  have hlt := hp h
  rw [read_many, read_upTo_succ, h, Option.bind_some, read_many,
    read_upTo_congr hp text.length (rest.length + 1) rest hlt (by omega)]
  cases hrest : (p.upTo (rest.length + 1)).read rest with
  | some s => rfl
  | none =>
    rw [read_upTo_succ] at hrest
    simp at hrest

/-- The readings of a parser taken as often as it succeeds, one after another. -/
inductive Repeats (p : Parser α) : List Char → List α → List Char → Prop
  | stop {text : List Char} : p.read text = none → Repeats p text [] text
  | next {text rest last : List Char} {a : α} {as : List α} :
      p.read text = some (a, rest) → Repeats p rest as last → Repeats p text (a :: as) last

/-- `many` reads exactly the readings one after another. -/
theorem read_many_iff {p : Parser α} (hp : p.Advances) {text last : List Char} {as : List α} :
    (many p).read text = some (as, last) ↔ Repeats p text as last := by
  constructor
  · intro h
    induction as generalizing text with
    | nil =>
      cases hr : p.read text with
      | none =>
        rw [read_many_of_none hr, Option.some.injEq, Prod.mk.injEq] at h
        rw [← h.2]
        exact .stop hr
      | some r =>
        rw [read_many_of_some hp hr, Option.map_eq_some_iff] at h
        obtain ⟨s, -, hs⟩ := h
        simp at hs
    | cons a as ih =>
      cases hr : p.read text with
      | none =>
        rw [read_many_of_none hr] at h
        simp at h
      | some r =>
        rw [read_many_of_some hp hr, Option.map_eq_some_iff] at h
        obtain ⟨s, hs, hsa⟩ := h
        simp only [Prod.mk.injEq, List.cons.injEq] at hsa
        obtain ⟨⟨rfl, rfl⟩, rfl⟩ := hsa
        exact .next hr (ih hs)
  · intro h
    induction h with
    | stop hr => exact read_many_of_none hr
    | next hr _ ih => rw [read_many_of_some hp hr, ih]; rfl

end Parser

end PinnedImports.Go
