import PinnedImports.Proofs.Build.Tokens

/-!
# The grammar of conditions

`Derives` is the grammar of `//go:build` lines: a disjunction is made of conjunctions, a conjunction of
operands, and an operand is a tag, a negated operand or a disjunction in parentheses. The derivation
fixes the tree, in which operators of one rank associate to the left. Reading accepts exactly the
texts whose tokens are derivable, and gives the tree of the derivation (`parses_derivations`). A
condition written with parentheses around each of its parts is one of these texts.
-/

set_option autoImplicit false

namespace PinnedImports.Build

namespace Condition

/-- The ranks of the grammar, from the tightest to the loosest. -/
inductive Rank where
  | operand
  | conjunction
  | disjunction

/-- The tokens spell the condition at a rank of the grammar. -/
inductive Derives : Rank → List Token → Condition → Prop
  | tag (name : String) : Derives .operand [.tag name] (.tag name)
  | not {tokens : List Token} {c : Condition} :
      Derives .operand tokens c → Derives .operand (.not :: tokens) (.not c)
  | parens {tokens : List Token} {c : Condition} :
      Derives .disjunction tokens c → Derives .operand (.openParen :: (tokens ++ [.closeParen])) c
  | conjunct {tokens : List Token} {c : Condition} :
      Derives .operand tokens c → Derives .conjunction tokens c
  | and {front back : List Token} {a b : Condition} :
      Derives .conjunction front a → Derives .operand back b →
        Derives .conjunction (front ++ .and :: back) (.and a b)
  | disjunct {tokens : List Token} {c : Condition} :
      Derives .conjunction tokens c → Derives .disjunction tokens c
  | or {front back : List Token} {a b : Condition} :
      Derives .disjunction front a → Derives .conjunction back b →
        Derives .disjunction (front ++ .or :: back) (.or a b)

/-! ## What is read is derivable -/

/-- A reader takes tokens off the front that spell the condition it gives. -/
def Sound (reader : Reader) (spells : List Token → Condition → Prop) : Prop :=
  ∀ {tokens : List Token} {c : Condition} {rest : List Token},
    reader tokens = some (c, rest) → ∃ used, tokens = used ++ rest ∧ spells used c

section Chains

variable {operand : Reader} {operator : Token} {build : Condition → Condition → Condition}
  {part whole : List Token → Condition → Prop}

/-- What follows the first operands of a chain goes on with it. -/
theorem sound_chainFrom (hoperand : Sound operand part)
    (hmore : ∀ {front back : List Token} {a b : Condition}, whole front a → part back b →
      whole (front ++ operator :: back) (build a b)) {n : Nat} {front : List Token}
    {left : Condition} (hleft : whole front left) {tokens : List Token} {c : Condition}
    {rest : List Token}
    (h : chainFrom operand operator build n left tokens = some (c, rest)) :
    ∃ used, tokens = used ++ rest ∧ whole (front ++ used) c := by
  -- The operands read so far spell the left one, and each step adds an operator and an operand.
  induction n generalizing front left tokens with
  | zero =>
    rw [chainFrom, Option.some.injEq, Prod.mk.injEq] at h
    obtain ⟨rfl, rfl⟩ := h
    exact ⟨[], rfl, by rwa [List.append_nil]⟩
  | succ n ih =>
    cases tokens with
    | nil =>
      rw [chainFrom, Option.some.injEq, Prod.mk.injEq] at h
      obtain ⟨rfl, rfl⟩ := h
      exact ⟨[], rfl, by rwa [List.append_nil]⟩
    | cons token tokens =>
      rw [chainFrom] at h
      split at h
      · rename_i htoken
        subst htoken
        split at h
        · rename_i right later hright
          obtain ⟨back, rfl, hback⟩ := hoperand hright
          obtain ⟨used, rfl, hused⟩ := ih (hmore hleft hback) h
          refine ⟨token :: (back ++ used), by simp, ?_⟩
          rwa [List.append_assoc, List.cons_append] at hused
        · simp at h
      · rw [Option.some.injEq, Prod.mk.injEq] at h
        obtain ⟨rfl, rfl⟩ := h
        exact ⟨[], rfl, by rwa [List.append_nil]⟩

theorem sound_chain (hoperand : Sound operand part)
    (hone : ∀ {tokens : List Token} {c : Condition}, part tokens c → whole tokens c)
    (hmore : ∀ {front back : List Token} {a b : Condition}, whole front a → part back b →
      whole (front ++ operator :: back) (build a b)) :
    Sound (chain operand operator build) whole := by
  intro tokens c rest h
  rw [chain] at h
  split at h
  · rename_i left later hleft
    obtain ⟨front, rfl, hfront⟩ := hoperand hleft
    obtain ⟨used, rfl, hused⟩ := sound_chainFrom hoperand hmore (hone hfront) h
    exact ⟨front ++ used, by rw [List.append_assoc], hused⟩
  · simp at h

end Chains

theorem sound_disjunction {reader : Reader} (h : Sound reader (Derives .operand)) :
    Sound (disjunction reader) (Derives .disjunction) :=
  sound_chain (sound_chain h .conjunct .and) .disjunct .or

/-- **What is read as an operand is one.** -/
theorem sound_operand (n : Nat) : Sound (operand n) (Derives .operand) := by
  induction n with
  | zero =>
    intro tokens c rest h
    simp [operand] at h
  | succ n ih =>
    intro tokens c rest h
    unfold operand at h
    split at h
    case h_1 =>
      obtain ⟨⟨inner, later⟩, hinner, heq⟩ := Option.map_eq_some_iff.1 h
      rw [Prod.mk.injEq] at heq
      obtain ⟨rfl, rfl⟩ := heq
      obtain ⟨used, rfl, hused⟩ := ih hinner
      exact ⟨.not :: used, rfl, .not hused⟩
    case h_2 =>
      split at h
      · rename_i inner later hinner
        rw [Option.some.injEq, Prod.mk.injEq] at h
        obtain ⟨rfl, rfl⟩ := h
        obtain ⟨used, rfl, hused⟩ := sound_disjunction ih hinner
        exact ⟨.openParen :: (used ++ [.closeParen]), by simp, .parens hused⟩
      · simp at h
    case h_3 =>
      rw [Option.some.injEq, Prod.mk.injEq] at h
      obtain ⟨rfl, rfl⟩ := h
      exact ⟨[.tag _], rfl, .tag _⟩
    case h_4 => simp at h

/-! ## What is derivable is read -/

section Chains

variable {operand : Reader} {operator : Token} {build : Condition → Condition → Condition}
  {ends : List Token → Prop}

/-- The reader takes the tokens, whatever follows them that satisfies `ends`. -/
def ReadsBefore (ends : List Token → Prop) (reader : Reader) (tokens : List Token)
    (c : Condition) : Prop :=
  ∀ rest, ends rest → reader (tokens ++ rest) = some (c, rest)

/-- The chain takes the tokens as its first operands, and goes on with what follows them. -/
def Leads (ends : List Token → Prop) (operand : Reader) (operator : Token)
    (build : Condition → Condition → Condition) (tokens : List Token) (c : Condition) : Prop :=
  ∀ rest, ends rest → ∃ n, rest.length ≤ n ∧
    chain operand operator build (tokens ++ rest) = chainFrom operand operator build n c rest

theorem ReadsBefore.leads {tokens : List Token} {c : Condition}
    (h : ReadsBefore ends operand tokens c) : Leads ends operand operator build tokens c := by
  intro rest hrest
  refine ⟨rest.length, Nat.le_refl _, ?_⟩
  rw [chain, h rest hrest]

theorem Leads.more {front back : List Token} {a b : Condition}
    (hends : ∀ rest, ends (operator :: rest)) (hfront : Leads ends operand operator build front a)
    (hback : ReadsBefore ends operand back b) :
    Leads ends operand operator build (front ++ operator :: back) (build a b) := by
  intro rest hrest
  obtain ⟨n, hn, hchain⟩ := hfront (operator :: (back ++ rest)) (hends _)
  obtain ⟨n, rfl⟩ := Nat.exists_eq_add_one_of_ne_zero (Nat.ne_zero_of_lt hn)
  refine ⟨n, ?_, ?_⟩
  · rw [List.length_cons, List.length_append] at hn
    omega
  · rw [List.append_assoc, List.cons_append, hchain, chainFrom, if_pos rfl, hback rest hrest]

/-- A chain ends in front of what is not its operator. -/
theorem Leads.readsBefore {tokens : List Token} {c : Condition}
    (h : Leads ends operand operator build tokens c) {ends' : List Token → Prop}
    (hends : ∀ rest, ends' rest → ends rest ∧ rest.head? ≠ some operator) :
    ReadsBefore ends' (chain operand operator build) tokens c := by
  intro rest hrest
  obtain ⟨hrest, hhead⟩ := hends rest hrest
  obtain ⟨n, -, hchain⟩ := h rest hrest
  rw [hchain]
  cases n with
  | zero => rfl
  | succ n =>
    cases rest with
    | nil => rfl
    | cons token rest =>
      rw [chainFrom, if_neg]
      rintro rfl
      exact hhead rfl

end Chains

/-- What may follow an operand: anything. -/
def EndsOperand (_ : List Token) : Prop := True

/-- What may follow a conjunction. -/
def EndsConjunction (rest : List Token) : Prop := rest.head? ≠ some .and

/-- What may follow a disjunction. -/
def EndsDisjunction (rest : List Token) : Prop :=
  EndsConjunction rest ∧ rest.head? ≠ some .or

/-- What the rank of a derivation says of reading its tokens, when as many levels of nesting as the
argument says are admitted. -/
def Reads (n : Nat) (tokens : List Token) (c : Condition) : Rank → Prop
  | .operand => ReadsBefore EndsOperand (operand n) tokens c
  | .conjunction => Leads EndsOperand (operand n) .and .and tokens c
  | .disjunction => Leads EndsConjunction (chain (operand n) .and .and) .or .or tokens c

theorem Reads.conjunction {n : Nat} {tokens : List Token} {c : Condition}
    (h : Reads n tokens c .conjunction) :
    ReadsBefore EndsConjunction (chain (operand n) .and .and) tokens c :=
  Leads.readsBefore h fun _ hrest => ⟨trivial, hrest⟩

theorem Reads.disjunction {n : Nat} {tokens : List Token} {c : Condition}
    (h : Reads n tokens c .disjunction) :
    ReadsBefore EndsDisjunction (Condition.disjunction (Condition.operand n)) tokens c :=
  Leads.readsBefore h fun _ hrest => hrest

/-- **What is derivable is read**, when nesting is admitted as deep as there are tokens. -/
theorem Derives.reads {rank : Rank} {tokens : List Token} {c : Condition}
    (h : Derives rank tokens c) : ∀ {n : Nat}, tokens.length ≤ n → Reads n tokens c rank := by
  induction h with
  | tag name =>
    intro n hn rest _
    obtain ⟨n, rfl⟩ := Nat.exists_eq_add_one_of_ne_zero (Nat.ne_zero_of_lt hn)
    rfl
  | not _ ih =>
    intro n hn rest hrest
    obtain ⟨n, rfl⟩ := Nat.exists_eq_add_one_of_ne_zero (Nat.ne_zero_of_lt hn)
    have hinner := ih (Nat.le_of_succ_le_succ hn) rest hrest
    rw [List.cons_append, operand, hinner, Option.map_some]
  | @parens tokens c _ ih =>
    intro n hn rest _
    obtain ⟨n, rfl⟩ := Nat.exists_eq_add_one_of_ne_zero (Nat.ne_zero_of_lt hn)
    have hlength : tokens.length ≤ n := by
      rw [List.length_cons, List.length_append] at hn
      omega
    -- The parenthesis behind the disjunction is none of its operators.
    have hends : EndsDisjunction (.closeParen :: rest) := ⟨by simp [EndsConjunction], by simp⟩
    have hinner := (ih hlength).disjunction (.closeParen :: rest) hends
    rw [List.cons_append, List.append_assoc, List.singleton_append, operand, hinner]
  | conjunct _ ih => exact fun hn => (ih hn).leads
  | @and front back a b _ _ ihfront ihback =>
    intro n hn
    rw [List.length_append, List.length_cons] at hn
    apply Leads.more
    · exact fun _ => trivial
    · exact ihfront (by omega)
    · exact ihback (by omega)
  | disjunct _ ih => exact fun hn => (ih hn).conjunction.leads
  | @or front back a b _ _ ihfront ihback =>
    intro n hn
    rw [List.length_append, List.length_cons] at hn
    apply Leads.more
    · -- A disjunct ends in front of the next operator, since that is no `&&`.
      intro rest
      simp [EndsConjunction]
    · exact ihfront (by omega)
    · exact (ihback (by omega)).conjunction

/-- **Reading takes exactly the derivable lists of tokens**, to the trees of their derivations. -/
theorem ofTokens?_eq_some_iff {tokens : List Token} {c : Condition} :
    ofTokens? tokens = some c ↔ Derives .disjunction tokens c := by
  constructor
  · intro h
    rw [ofTokens?] at h
    split at h
    · rename_i found hfound
      rw [Option.some.injEq] at h
      subst h
      obtain ⟨used, hused, hderives⟩ := sound_disjunction (sound_operand _) hfound
      rw [List.append_nil] at hused
      exact hused ▸ hderives
    · simp at h
  · intro h
    have hends : EndsDisjunction [] := ⟨by simp [EndsConjunction], by simp⟩
    have hreads := (h.reads (Nat.le_succ _)).disjunction [] hends
    rw [List.append_nil] at hreads
    rw [ofTokens?, hreads]

/-- **Reading accepts exactly the texts whose tokens are derivable.** -/
theorem parse?_eq_some_iff {cs : List Char} {c : Condition} :
    parse? cs = some c ↔ ∃ tokens, Token.Splits cs tokens ∧ Derives .disjunction tokens c := by
  rw [parse?, Option.bind_eq_some_iff]
  apply exists_congr
  intro tokens
  rw [Token.scan_eq_some_iff, ofTokens?_eq_some_iff]

/-! ## Conditions written out -/

/-- Whether all tags of the condition can be tags. -/
def isSpellable : Condition → Bool
  | tag name => isTag name.toList
  | not c => c.isSpellable
  | and a b => a.isSpellable && b.isSpellable
  | or a b => a.isSpellable && b.isSpellable

/-- The condition with parentheses around everything but its tags. -/
def written : Condition → List Char
  | tag name => name.toList
  | not c => '(' :: ('!' :: c.written ++ [')'])
  | and a b => '(' :: (a.written ++ ' ' :: '&' :: '&' :: ' ' :: b.written ++ [')'])
  | or a b => '(' :: (a.written ++ ' ' :: '|' :: '|' :: ' ' :: b.written ++ [')'])

/-- The tokens of the condition with parentheses around everything but its tags. -/
def writtenTokens : Condition → List Token
  | tag name => [.tag name]
  | not c => .openParen :: (.not :: c.writtenTokens ++ [.closeParen])
  | and a b => .openParen :: (a.writtenTokens ++ .and :: b.writtenTokens ++ [.closeParen])
  | or a b => .openParen :: (a.writtenTokens ++ .or :: b.writtenTokens ++ [.closeParen])

/-- What is written out spells the condition. -/
theorem derives_writtenTokens (c : Condition) : Derives .operand c.writtenTokens c := by
  induction c with
  | tag name => exact .tag name
  | not c ih =>
    apply Derives.parens
    exact .disjunct (.conjunct (.not ih))
  | and a b iha ihb =>
    apply Derives.parens
    exact .disjunct (.and (.conjunct iha) ihb)
  | or a b iha ihb =>
    apply Derives.parens
    exact .or (.disjunct (.conjunct iha)) (.conjunct ihb)

theorem splitsAhead_written {c : Condition} (h : c.isSpellable = true) :
    Token.SplitsAhead c.written c.writtenTokens := by
  induction c with
  | tag name => exact Token.SplitsAhead.tag h
  | not c ih => exact Token.SplitsAhead.parens (.not (ih h))
  | and a b iha ihb =>
    obtain ⟨ha, hb⟩ := Bool.and_eq_true_iff.1 h
    apply Token.SplitsAhead.parens
    exact .operator .and (fun _ => trivial) (iha ha) (ihb hb)
  | or a b iha ihb =>
    obtain ⟨ha, hb⟩ := Bool.and_eq_true_iff.1 h
    apply Token.SplitsAhead.parens
    exact .operator .or (fun _ => trivial) (iha ha) (ihb hb)

/-- The tags of a text can be tags. -/
theorem isTag_of_splits {cs : List Char} {tokens : List Token} (h : Token.Splits cs tokens)
    {name : String} (hname : .tag name ∈ tokens) : isTag name.toList = true := by
  induction h with
  | done => simp at hname
  | blank _ _ ih => exact ih hname
  | token token hstands _ ih =>
    rcases List.mem_cons.1 hname with rfl | hname
    · exact hstands.1
    · exact ih hname

/-- The tags of a condition are among the tokens that spell it. -/
theorem Derives.isSpellable {rank : Rank} {tokens : List Token} {c : Condition}
    (h : Derives rank tokens c) (htags : ∀ name, .tag name ∈ tokens → isTag name.toList = true) :
    c.isSpellable = true := by
  induction h with
  | tag name => exact htags name List.mem_cons_self
  | not _ ih => exact ih fun name hname => htags name (List.mem_cons_of_mem _ hname)
  | parens _ ih =>
    apply ih
    intro name hname
    exact htags name (List.mem_cons_of_mem _ (List.mem_append_left _ hname))
  | conjunct _ ih => exact ih htags
  | disjunct _ ih => exact ih htags
  | and _ _ ihfront ihback | or _ _ ihfront ihback =>
    apply Bool.and_eq_true_iff.2
    constructor
    · apply ihfront
      intro name hname
      exact htags name (List.mem_append_left _ hname)
    · apply ihback
      intro name hname
      exact htags name (List.mem_append_right _ (List.mem_cons_of_mem _ hname))

/-- A condition that is written out is read back exactly if its tags can be tags. -/
theorem parse?_written (c : Condition) : parse? c.written = some c ↔ c.isSpellable = true := by
  rw [parse?_eq_some_iff]
  constructor
  · rintro ⟨tokens, hsplits, hderives⟩
    exact hderives.isSpellable fun _ hname => isTag_of_splits hsplits hname
  · intro h
    exact ⟨c.writtenTokens, (splitsAhead_written h).splits,
      .disjunct (.conjunct (derives_writtenTokens c))⟩

/-- **Reading accepts exactly its grammar.** A text is read exactly if it splits into tokens that are
derivable as a disjunction, all of them used, and then to the tree of the derivation, in which `!`
binds tighter than `&&` and `&&` tighter than `||`, and both associate to the left. In particular every
condition whose tags can be tags is read back when it is written with full parentheses. -/
theorem parses_derivations :
    (∀ cs c, parse? cs = some c ↔
      ∃ tokens, Token.Splits cs tokens ∧ Derives .disjunction tokens c) ∧
    ∀ c : Condition, parse? c.written = some c ↔ c.isSpellable = true :=
  ⟨fun _ _ => parse?_eq_some_iff, parse?_written⟩

end Condition

end PinnedImports.Build
