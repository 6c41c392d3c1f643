import PinnedImports.Proofs.Go.ImportDeclarations

/-!
# Scanning a text for comments and literals

`scan` goes through a text character by character and keeps whether it is in code, in a comment or
in a literal. Blanks, terminators, literals and import declarations as they are read by the grammar
lead it from code to code, and it is not in code anywhere inside of a comment or a literal. So a
text that the scan leaves in code can be cut there without a comment or a literal being torn apart
(`Blanks.cut`).
-/

set_option autoImplicit false

namespace PinnedImports.Go

open Text

/-- What a scan of a text is in. -/
inductive Mode where
  | code
  /-- behind a slash in code -/
  | slash
  | lineComment
  | blockComment
  /-- behind a star in a block comment -/
  | star
  /-- in a literal up to the given quote -/
  | quoted (mark : Char)
  /-- behind a backslash in such a literal -/
  | escaped (mark : Char)
  /-- in a raw string -/
  | raw
deriving DecidableEq

namespace Mode

/-- The mode behind a character of the code. -/
def ofCode (c : Char) : Mode :=
  if c = '/' then slash
  else if c = '"' ∨ c = '\'' then quoted c
  else if c = '`' then raw
  else code

/-- The mode behind the next character. -/
def step : Mode → Char → Mode
  | code, c => ofCode c
  | slash, c => if c = '/' then lineComment else if c = '*' then blockComment else ofCode c
  | lineComment, c => if c = '\n' then code else lineComment
  | blockComment, c => if c = '*' then star else blockComment
  | star, c => if c = '/' then code else if c = '*' then star else blockComment
  | quoted mark, c => if c = '\\' then escaped mark else if c = mark then code else quoted mark
  | escaped mark, _ => quoted mark
  | raw, c => if c = '`' then code else raw

end Mode

/-- The mode behind a text. -/
def scan (mode : Mode) (text : List Char) : Mode := text.foldl Mode.step mode

@[simp] theorem scan_nil (mode : Mode) : scan mode [] = mode := rfl

@[simp] theorem scan_cons (mode : Mode) (c : Char) (cs : List Char) :
    scan mode (c :: cs) = scan (mode.step c) cs := rfl

theorem scan_append (mode : Mode) (a b : List Char) :
    scan mode (a ++ b) = scan (scan mode a) b := List.foldl_append

/-- A text that leads from code to code does not change the mode of what follows it. -/
theorem scan_code_append {a : List Char} (ha : scan .code a = .code) (b : List Char) :
    scan .code (a ++ b) = scan .code b := by
  rw [scan_append, ha]

/-! ## Plain characters -/

/-- A character that begins neither a comment nor a literal. -/
def IsPlain (c : Char) : Prop := c ≠ '/' ∧ c ≠ '"' ∧ c ≠ '\'' ∧ c ≠ '`'

theorem IsPlain.ofCode {c : Char} (h : IsPlain c) : Mode.ofCode c = .code := by
  obtain ⟨hslash, hquote, hmark, hraw⟩ := h
  rw [Mode.ofCode, if_neg hslash, if_neg (not_or.2 ⟨hquote, hmark⟩), if_neg hraw]

theorem scan_plain {cs : List Char} (h : ∀ c ∈ cs, IsPlain c) : scan .code cs = .code := by
  induction cs with
  | nil => rfl
  | cons c cs ih =>
    rw [scan_cons, Mode.step, (h c (List.mem_cons_self ..)).ofCode]
    exact ih fun d hd => h d (List.mem_cons_of_mem _ hd)

theorem isPlain_of_isGap {c : Char} (h : isGap c = true) : IsPlain c := by
  refine ⟨ne_slash_of_isGap h, ?_, ?_, ?_⟩
  all_goals
    rintro rfl
    exact absurd h (by decide)

theorem isPlain_of_isTerminator {c : Char} (h : isTerminator c = true) : IsPlain c := by
  refine ⟨ne_slash_of_isTerminator h, ?_, ?_, ?_⟩
  all_goals
    rintro rfl
    exact absurd h (by decide)

theorem isPlain_of_isIdentifierContinue {c : Char} (h : isIdentifierContinue c = true) :
    IsPlain c := by
  refine ⟨?_, ?_, ?_, ?_⟩
  all_goals
    rintro rfl
    exact absurd h (by decide)

theorem isPlain_of_isIdentifierStart {c : Char} (h : isIdentifierStart c = true) :
    IsPlain c := by
  refine ⟨?_, ?_, ?_, ?_⟩
  all_goals
    rintro rfl
    exact absurd h (by decide)

theorem IsWord.isPlain {word : List Char} (h : IsWord word) : ∀ c ∈ word, IsPlain c := by
  obtain ⟨c, cs, rfl, hc, hcs⟩ := h
  intro d hd
  rcases List.mem_cons.1 hd with rfl | hd
  · exact isPlain_of_isIdentifierStart hc
  · exact isPlain_of_isIdentifierContinue (hcs d hd)

theorem IsName.isPlain {name : List Char} (h : IsName name) : ∀ c ∈ name, IsPlain c := by
  rcases h with rfl | hword
  · intro c hc
    rw [List.mem_singleton.1 hc]
    exact ⟨by decide, by decide, by decide, by decide⟩
  · exact hword.isPlain

/-! ## Comments -/

theorem scan_lineComment {body : List Char} (h : '\n' ∉ body) :
    scan .lineComment body = .lineComment := by
  induction body with
  | nil => rfl
  | cons c body ih =>
    rw [List.mem_cons, not_or] at h
    rw [scan_cons, Mode.step, if_neg (Ne.symm h.1), ih h.2]

/-- The modes of a block comment. -/
def InBlock (mode : Mode) : Prop := mode = .blockComment ∨ mode = .star

theorem InBlock.ne_code {mode : Mode} (h : InBlock mode) : mode ≠ .code := by
  rcases h with rfl | rfl
  · simp
  · simp

theorem closesComment_cons_of {c : Char} {cs : List Char} (h : closesComment cs = true) :
    closesComment (c :: cs) = true := by
  rw [closesComment.eq_def]
  split
  · rfl
  · rename_i heq
    rw [List.cons.injEq] at heq
    rw [← heq.2]
    exact h
  · rename_i heq
    simp at heq

theorem closesComment_append_left {a : List Char} (h : closesComment a = true) (b : List Char) :
    closesComment (a ++ b) = true := by
  induction a with
  | nil => simp [closesComment] at h
  | cons c a ih =>
    rw [closesComment.eq_def] at h
    split at h
    · rename_i heq
      rw [List.cons.injEq] at heq
      rw [heq.1, heq.2]
      rfl
    · rename_i heq
      rw [List.cons.injEq] at heq
      obtain ⟨rfl, rfl⟩ := heq
      exact closesComment_cons_of (ih h)
    · simp at h

/-- A text without the end of a block comment does not lead out of one. -/
theorem inBlock_scan (cs : List Char) :
    (closesComment cs = false → InBlock (scan .blockComment cs)) ∧
      (closesComment ('*' :: cs) = false → InBlock (scan .star cs)) := by
  -- Behind a star the scan remembers it, so both modes go through the text together.
  induction cs with
  | nil => exact ⟨fun _ => .inl rfl, fun _ => .inr rfl⟩
  | cons c cs ih =>
    have hopen {d : Char} {ds : List Char} (h : closesComment (d :: ds) = false) :
        closesComment ds = false := by
      by_contra hclose
      rw [Bool.not_eq_false] at hclose
      rw [closesComment_cons_of hclose] at h
      simp at h
    constructor
    · intro h
      by_cases hc : c = '*'
      · subst hc
        exact ih.2 h
      · rw [scan_cons, Mode.step, if_neg hc]
        exact ih.1 (hopen h)
    · intro h
      have hslash : c ≠ '/' := by
        rintro rfl
        simp [closesComment] at h
      by_cases hc : c = '*'
      · subst hc
        exact ih.2 (hopen h)
      · rw [scan_cons, Mode.step, if_neg hslash, if_neg hc]
        exact ih.1 (hopen (hopen h))

theorem scan_blockComment {body : List Char} (h : closesComment (body ++ ['*']) = false)
    (cs : List Char) : scan .blockComment (body ++ '*' :: '/' :: cs) = scan .code cs := by
  have hbody : closesComment body = false := by
    by_contra hclose
    rw [Bool.not_eq_false] at hclose
    rw [closesComment_append_left hclose] at h
    simp at h
  rw [scan_append]
  rcases (inBlock_scan body).1 hbody with hmode | hmode
  · rw [hmode]
    rfl
  · rw [hmode]
    rfl

theorem scan_slashes (cs : List Char) : scan .code ('/' :: '/' :: cs) = scan .lineComment cs := rfl

theorem scan_slash_star (cs : List Char) :
    scan .code ('/' :: '*' :: cs) = scan .blockComment cs := rfl

theorem scan_line {body : List Char} (h : '\n' ∉ body) (cs : List Char) :
    scan .lineComment (body ++ '\n' :: cs) = scan .code cs := by
  rw [scan_append, scan_lineComment h]
  rfl

/-- Blanks and comments lead from code to code. -/
theorem scan_blanks {blanks : List Char} (h : Blanks blanks) : scan .code blanks = .code := by
  induction h with
  | nil => rfl
  | gap hc _ ih => rw [scan_cons, Mode.step, (isPlain_of_isGap hc).ofCode, ih]
  | line hbody _ ih => rw [scan_slashes, scan_line hbody, ih]
  | block hbody _ ih => rw [scan_slash_star, scan_blockComment hbody, ih]

theorem scan_closing {closing : List Char} (h : Closing closing) :
    scan .code closing = .code := by
  induction h with
  | mark hc => rw [scan_cons, Mode.step, (isPlain_of_isTerminator hc).ofCode, scan_nil]
  | gap hc _ _ ih => rw [scan_cons, Mode.step, (isPlain_of_isGap hc).ofCode, ih]
  | line hbody => rw [scan_slashes, scan_line hbody, scan_nil]
  | block hbody _ ih => rw [scan_slash_star, scan_blockComment hbody, ih]

/-! ## Pieces -/

/-- A text within which the scan is never in code. -/
def IsPiece (piece : List Char) : Prop :=
  ∀ ⦃u w : List Char⦄, piece = u ++ w → scan .code u = .code → u = [] ∨ w = []

theorem isPiece_singleton (c : Char) : IsPiece [c] := by
  intro u w heq _
  rcases List.append_eq_singleton_iff.1 heq.symm with ⟨rfl, -⟩ | ⟨-, rfl⟩
  · exact .inl rfl
  · exact .inr rfl

theorem isPiece_line {body : List Char} (h : '\n' ∉ body) :
    IsPiece ('/' :: '/' :: (body ++ ['\n'])) := by
  rintro (_ | ⟨c, _ | ⟨d, u⟩⟩) w heq hcode
  · exact .inl rfl
  · rw [List.cons_append, List.cons.injEq] at heq
    rw [← heq.1] at hcode
    exact absurd hcode (by decide)
  · simp only [List.cons_append, List.cons.injEq] at heq
    obtain ⟨rfl, rfl, heq⟩ := heq
    rcases w.eq_nil_or_concat with rfl | ⟨w, e, rfl⟩
    · exact .inr rfl
    · -- The line break lies behind the cut.
      rw [List.concat_eq_append, ← List.append_assoc] at heq
      have hcut := (List.append_inj' heq rfl).1
      have hu : '\n' ∉ u := fun hmem => h (by rw [hcut]; exact List.mem_append_left _ hmem)
      rw [scan_slashes, scan_lineComment hu] at hcode
      simp at hcode

/-- Within a block comment the scan is not in code. -/
theorem scan_in_block {body u w : List Char} (h : closesComment (body ++ ['*']) = false)
    (heq : body ++ ['*', '/'] = u ++ w) (hw : w ≠ []) : scan .blockComment u ≠ .code := by
  obtain ⟨w', d, rfl⟩ := w.eq_nil_or_concat.resolve_left hw
  rw [List.concat_eq_append, ← List.append_assoc, List.append_cons] at heq
  have hcut := (List.append_inj' heq rfl).1
  have hopen : closesComment u = false := by
    by_contra hclose
    rw [Bool.not_eq_false] at hclose
    rw [hcut, closesComment_append_left hclose] at h
    simp at h
  exact ((inBlock_scan u).1 hopen).ne_code

theorem isPiece_block {body : List Char} (h : closesComment (body ++ ['*']) = false) :
    IsPiece ('/' :: '*' :: (body ++ ['*', '/'])) := by
  rintro (_ | ⟨c, _ | ⟨d, u⟩⟩) w heq hcode
  · exact .inl rfl
  · rw [List.cons_append, List.cons.injEq] at heq
    rw [← heq.1] at hcode
    exact absurd hcode (by decide)
  · simp only [List.cons_append, List.cons.injEq] at heq
    obtain ⟨rfl, rfl, heq⟩ := heq
    by_cases hw : w = []
    · exact .inr hw
    · exact absurd hcode (scan_in_block h heq hw)

theorem scan_quotedRest {cs : List Char} {n : Nat} (h : quotedRest cs = some n) :
    ∀ m ≤ n, scan (.quoted '"') (cs.take m) = .code ↔ m = n := by
  -- The cases are those of reading the literal; an escaped character takes the scan two steps.
  induction cs using quotedRest.induct generalizing n with
  | case1 tail =>
    rw [quotedRest, Option.some.injEq] at h
    subst h
    intro m hm
    obtain rfl | rfl : m = 0 ∨ m = 1 := by omega
    · simp
    · rw [List.take_succ_cons, List.take_zero]
      exact iff_of_true (by decide) rfl
  | case2 c tail due hdue =>
    rename_i ih
    rw [quotedRest, if_pos hdue, Option.map_eq_some_iff] at h
    obtain ⟨k, hk, rfl⟩ := h
    intro m hm
    rcases m with _ | _ | m
    · simp
    · rw [List.take_succ_cons, List.take_zero, scan_cons, Mode.step, if_pos rfl, scan_nil]
      exact iff_of_false (by simp) (by omega)
    · rw [List.take_succ_cons, List.take_succ_cons, scan_cons, Mode.step, if_pos rfl, scan_cons,
        Mode.step, ih hk m (by omega)]
      omega
  | case3 c tail due =>
    rename_i hdue
    rw [quotedRest, if_neg hdue] at h
    simp at h
  | case4 c tail hquote hslash hbad =>
    rw [quotedRest, if_pos hbad] at h
    · simp at h
    · exact hquote
    · exact hslash
  | case5 c tail hquote hslash hbad ih =>
    rw [quotedRest, if_neg hbad, Option.map_eq_some_iff] at h
    · obtain ⟨k, hk, rfl⟩ := h
      rw [Bool.or_eq_true, not_or, beq_iff_eq, beq_iff_eq] at hbad
      intro m hm
      rcases m with _ | m
      · simp
      · rw [List.take_succ_cons, scan_cons, Mode.step, if_neg hbad.2, if_neg hquote,
          ih hk m (by omega)]
        omega
    · exact hquote
    · exact hslash
  | case6 => simp [quotedRest] at h

theorem scan_rawRest {cs : List Char} {n : Nat} (h : rawRest cs = some n) :
    ∀ m ≤ n, scan .raw (cs.take m) = .code ↔ m = n := by
  induction cs generalizing n with
  | nil => simp [rawRest] at h
  | cons c cs ih =>
    rw [rawRest] at h
    split at h
    · rename_i hc
      rw [beq_iff_eq] at hc
      rw [Option.some.injEq] at h
      subst h hc
      intro m hm
      obtain rfl | rfl : m = 0 ∨ m = 1 := by omega
      · simp
      · rw [List.take_succ_cons, List.take_zero]
        exact iff_of_true (by decide) rfl
    · rename_i hc
      rw [beq_iff_eq] at hc
      rw [Option.map_eq_some_iff] at h
      obtain ⟨k, hk, rfl⟩ := h
      intro m hm
      rcases m with _ | m
      · simp
      · rw [List.take_succ_cons, scan_cons, Mode.step, if_neg hc, ih hk m (by omega)]
        omega

/-- A literal leads from code to code, and within it the scan is never in code. -/
theorem IsLiteral.scan {literal : List Char} (h : IsLiteral literal) :
    ∀ m, 0 < m → m ≤ literal.length →
      (Go.scan .code (literal.take m) = .code ↔ m = literal.length) := by
  have hread := h []
  rw [List.append_nil] at hread
  intro m hpos hm
  obtain ⟨m, rfl⟩ : ∃ k, m = k + 1 := ⟨m - 1, by omega⟩
  unfold stringLength at hread
  split at hread
  · rw [Option.map_eq_some_iff] at hread
    obtain ⟨k, hk, hlen⟩ := hread
    rw [List.length_cons] at hlen hm ⊢
    rw [List.take_succ_cons, scan_cons]
    have hscan := scan_quotedRest hk m (by omega)
    have hmode : Mode.step .code '"' = .quoted '"' := by decide
    rw [hmode, hscan]
    omega
  · rw [Option.map_eq_some_iff] at hread
    obtain ⟨k, hk, hlen⟩ := hread
    rw [List.length_cons] at hlen hm ⊢
    rw [List.take_succ_cons, scan_cons]
    have hscan := scan_rawRest hk m (by omega)
    have hmode : Mode.step .code '`' = .raw := by decide
    rw [hmode, hscan]
    omega
  · simp at hread

theorem scan_literal {literal : List Char} (h : IsLiteral literal) :
    scan .code literal = .code := by
  obtain ⟨c, cs, hliteral, -⟩ := h.head
  have hscan := h.scan literal.length (by rw [hliteral]; simp) (Nat.le_refl _)
  rw [List.take_length] at hscan
  exact hscan.2 rfl

theorem isPiece_literal {literal : List Char} (h : IsLiteral literal) : IsPiece literal := by
  intro u w heq hcode
  by_cases hu : u = []
  · exact .inl hu
  · right
    have hlen : literal.length = u.length + w.length := by rw [heq, List.length_append]
    have hscan := h.scan u.length (List.length_pos_of_ne_nil hu) (by omega)
    rw [heq, List.take_left, ← heq] at hscan
    have hall := hscan.1 hcode
    exact List.eq_nil_of_length_eq_zero (by omega)

/-- A cut in code does not tear a piece apart. -/
theorem IsPiece.cut {piece cs u v : List Char} (h : IsPiece piece) (heq : piece ++ cs = u ++ v)
    (hcode : scan .code u = .code) : u = [] ∨ ∃ m, u = piece ++ m ∧ cs = m ++ v := by
  rcases List.append_eq_append_iff.1 heq with ⟨m, hu, hcs⟩ | ⟨m, hpiece, hv⟩
  · exact .inr ⟨m, hu, hcs⟩
  · rcases h hpiece hcode with hu | hm
    · exact .inl hu
    · refine .inr ⟨[], ?_, ?_⟩
      · rw [hpiece, hm, List.append_nil, List.append_nil]
      · rw [hv, hm]
        rfl

/-- **Blanks are cut into blanks wherever the scan is in code.** -/
theorem Blanks.cut {blanks : List Char} (h : Blanks blanks) :
    ∀ {u v : List Char}, blanks = u ++ v → scan .code u = .code → Blanks u ∧ Blanks v := by
  induction h with
  | nil =>
    intro u v heq _
    obtain ⟨rfl, rfl⟩ := List.append_eq_nil_iff.1 heq.symm
    exact ⟨.nil, .nil⟩
  | @gap c cs hc hcs ih =>
    intro u v heq hcode
    rcases (isPiece_singleton c).cut heq hcode with rfl | ⟨m, rfl, rfl⟩
    · rw [List.nil_append] at heq
      exact ⟨.nil, heq ▸ .gap hc hcs⟩
    · have hplain : scan .code [c] = .code := scan_plain (by simpa using isPlain_of_isGap hc)
      rw [scan_code_append hplain] at hcode
      obtain ⟨hm, hv⟩ := ih rfl hcode
      exact ⟨.gap hc hm, hv⟩
  | @line body cs hbody hcs ih =>
    intro u v heq hcode
    have hpiece : '/' :: '/' :: (body ++ ['\n']) ++ cs = u ++ v := by
      rw [← heq]
      simp
    rcases (isPiece_line hbody).cut hpiece hcode with rfl | ⟨m, rfl, rfl⟩
    · rw [List.nil_append] at heq
      exact ⟨.nil, heq ▸ .line hbody hcs⟩
    · rw [scan_append, scan_slashes, scan_line hbody, scan_nil] at hcode
      obtain ⟨hm, hv⟩ := ih rfl hcode
      exact ⟨by simpa using Blanks.line hbody hm, hv⟩
  | @block body cs hbody hcs ih =>
    intro u v heq hcode
    have hpiece : '/' :: '*' :: (body ++ ['*', '/']) ++ cs = u ++ v := by
      rw [← heq]
      simp
    rcases (isPiece_block hbody).cut hpiece hcode with rfl | ⟨m, rfl, rfl⟩
    · rw [List.nil_append] at heq
      exact ⟨.nil, heq ▸ .block hbody hcs⟩
    · rw [scan_append, scan_slash_star, scan_blockComment hbody, scan_nil] at hcode
      obtain ⟨hm, hv⟩ := ih rfl hcode
      exact ⟨by simpa using Blanks.block hbody hm, hv⟩

/-- A terminator does not follow a line break on its own line. -/
theorem Closing.cut {closing : List Char} (h : Closing closing) :
    ∀ {u w : List Char}, closing = u ++ w → w ≠ [] → scan .code u = .code →
      (∀ c ∈ u.getLast?, c = '\n') → u = [] := by
  induction h with
  | @mark c _ =>
    intro u w heq hw hcode _
    exact (isPiece_singleton c heq hcode).resolve_right hw
  | @gap c closing hc hnl _ ih =>
    intro u w heq hw hcode hend
    rcases (isPiece_singleton c).cut heq hcode with hu | ⟨m, rfl, rfl⟩
    · exact hu
    · have hplain : scan .code [c] = .code := scan_plain (by simpa using isPlain_of_isGap hc)
      rw [scan_code_append hplain] at hcode
      by_cases hm : m = []
      · subst hm
        exact absurd (hend c (by simp)) hnl
      · rw [List.getLast?_append_of_ne_nil _ hm] at hend
        exact absurd (ih rfl hw hcode hend) hm
  | line hbody =>
    intro u w heq hw hcode _
    exact (isPiece_line hbody heq hcode).resolve_right hw
  | @block body closing hbody _ ih =>
    intro u w heq hw hcode hend
    have hpiece : '/' :: '*' :: (body ++ ['*', '/']) ++ closing = u ++ w := by
      rw [← heq]
      simp
    rcases (isPiece_block hbody).cut hpiece hcode with hu | ⟨m, rfl, rfl⟩
    · exact hu
    · rw [scan_append, scan_slash_star, scan_blockComment hbody, scan_nil] at hcode
      by_cases hm : m = []
      · subst hm
        rw [List.append_nil, ← List.cons_append, ← List.cons_append, List.append_cons,
          List.getLast?_concat] at hend
        exact absurd (hend '/' rfl) (by decide)
      · rw [List.getLast?_append_of_ne_nil _ hm] at hend
        exact absurd (ih rfl hw hcode hend) hm

/-! ## Import declarations -/

theorem SpecText.scan_head (s : SpecText) : scan .code s.head = .code := by
  rw [SpecText.head]
  cases hname : s.name with
  | none => exact scan_blanks s.blanks
  | some name =>
    rw [Option.getD_some, scan_code_append (scan_plain (s.isName name hname).isPlain)]
    exact scan_blanks s.blanks

theorem SpecText.scan_chars (s : SpecText) : scan .code s.chars = .code := by
  rw [SpecText.chars, scan_code_append s.scan_head]
  exact scan_literal s.isLiteral

theorem scan_lines {whole : Bool} {after : Nat} {specs : List ImportSpec} {cs : List Char}
    (h : Lines whole after specs cs) : scan .code cs = .code := by
  induction h with
  | done hblanks => exact scan_blanks hblanks
  | @last gap blanks s _ hgap hblanks =>
    rw [scan_code_append (scan_blanks hgap), scan_code_append s.scan_chars]
    exact scan_blanks hblanks
  | @line gap closing cs s specs hgap hclosing _ ih =>
    rw [scan_code_append (scan_blanks hgap), scan_code_append s.scan_chars,
      scan_code_append (scan_closing hclosing)]
    exact ih

theorem scan_importWord : scan .code importWord = .code := scan_plain isWord_importWord.isPlain

theorem scan_opened {gap : List Char} (hgap : Blanks gap) :
    scan .code (importWord ++ (gap ++ ['('])) = .code := by
  rw [scan_code_append scan_importWord, scan_code_append (scan_blanks hgap)]
  decide

/-- **An import declaration leads from code to code.** -/
theorem scan_declText {after : Nat} {item : Item} {cs : List Char} (h : DeclText after item cs) :
    scan .code cs = .code := by
  have hclose : scan .code [')'] = .code := by decide
  cases h with
  | @single gap s hgap _ =>
    rw [scan_code_append scan_importWord, scan_code_append (scan_blanks hgap)]
    exact s.scan_chars
  | @block gap inside specs hgap hlines =>
    have hsplit : importWord ++ (gap ++ '(' :: (inside ++ [')'])) =
        importWord ++ (gap ++ ['(']) ++ (inside ++ [')']) := by simp
    rw [hsplit, scan_code_append (scan_opened hgap), scan_code_append (scan_lines hlines), hclose]

end PinnedImports.Go
