import PinnedImports.Proofs.Imports.SpecLine

/-!
# The comment lines above a line

`CommentRun` says where the run of comment lines above a line begins: only comment lines stand from
there up to the line, and no comment line stands in front of them. There is one such place
(`CommentRun.unique`). `walkUp?` looks for it line by line from below, and checks each place at which
it reads the text. From the beginning of a line it comes to this place without reading anywhere else
than between two characters of the text (`walkUp?_finds`).
-/

set_option autoImplicit false

namespace PinnedImports.Text

theorem isPlace_iff {text : List Char} {n : Nat} :
    IsPlace 0 text n ↔ byteLength (takeBytes n text) = n := by
  constructor
  · rintro ⟨before, after, rfl, rfl⟩
    rw [Nat.zero_add, takeBytes_byteLength]
  · intro h
    exact ⟨_, _, (takeBytes_append_dropBytes n text).symm, by rw [h, Nat.zero_add]⟩

instance (text : List Char) (n : Nat) : Decidable (IsPlace 0 text n) :=
  decidable_of_iff _ isPlace_iff.symm

/-- The characters from byte `start` up to byte `stop`; none unless these are places of the text, in
this order. -/
def slice? (start stop : Nat) (text : List Char) : Option (List Char) :=
  if start ≤ stop ∧ IsPlace 0 text start ∧ IsPlace 0 text stop then some (slice start stop text)
  else none

theorem slice?_append (a b c : List Char) :
    slice? (byteLength a) (byteLength a + byteLength b) (a ++ (b ++ c)) = some b := by
  have hstart : IsPlace 0 (a ++ (b ++ c)) (byteLength a) := ⟨a, b ++ c, rfl, (Nat.zero_add _).symm⟩
  have hstop : IsPlace 0 (a ++ (b ++ c)) (byteLength a + byteLength b) :=
    ⟨a ++ b, c, by rw [List.append_assoc], by rw [byteLength_append, Nat.zero_add]⟩
  rw [slice?, if_pos ⟨Nat.le_add_right _ _, hstart, hstop⟩, slice_append]

theorem byteLength_of_slice? {start stop : Nat} {text part : List Char}
    (h : slice? start stop text = some part) : start + byteLength part = stop := by
  rw [slice?] at h
  split at h
  · rename_i hplaces
    obtain ⟨hle, hstart, hstop⟩ := hplaces
    obtain ⟨before, old, after, rfl, rfl, rfl⟩ := exists_between_le hle hstart hstop
    rw [Nat.zero_add, slice_append, Option.some.injEq] at h
    rw [h, Nat.zero_add]
  · simp at h

end PinnedImports.Text

namespace PinnedImports.Imports

open Text

/-! ## Lines of a text -/

/-- A line of the text begins at byte `n`. -/
def BeginsLine (text : List Char) (n : Nat) : Prop :=
  ∃ before after, text = before ++ after ∧ n = byteLength before ∧ LineEnded before

instance (text : List Char) : Decidable (LineEnded text) :=
  Option.decidableForallMem text.getLast?

/-- The line that begins at byte `n`, without its newline. -/
def lineFrom (text : List Char) (n : Nat) : List Char := (dropBytes n text).takeWhile (· != '\n')

/-- Behind blanks the line begins with two slashes. -/
def OpensComment (line : List Char) : Prop :=
  ∃ blanks body, line = blanks ++ '/' :: '/' :: body ∧ ∀ c ∈ blanks, isBlank c = true

theorem isCommentLine_iff {line : List Char} : isCommentLine line = true ↔ OpensComment line := by
  rw [isCommentLine, List.isPrefixOf_iff_prefix, trimStart]
  constructor
  · rintro ⟨body, hbody⟩
    have hsplit : line = line.takeWhile isBlank ++ '/' :: '/' :: body := by
      have hcut := (List.takeWhile_append_dropWhile (p := isBlank) (l := line)).symm
      rwa [← hbody] at hcut
    exact ⟨_, body, hsplit, fun c hc => List.mem_takeWhile_imp hc⟩
  · rintro ⟨blanks, body, rfl, hblanks⟩
    rw [List.dropWhile_append_of_pos hblanks, List.dropWhile_cons_of_neg (by decide)]
    exact ⟨body, rfl⟩

theorem byteLength_takeWhile_le {p : Char → Bool} {c : Char} (hc : p c = false)
    (before after : List Char) :
    byteLength ((before ++ c :: after).takeWhile p) ≤ byteLength before := by
  induction before with
  | nil => rw [List.nil_append, List.takeWhile_cons, hc]; exact Nat.le_refl _
  | cons d before ih =>
    rw [List.cons_append, List.takeWhile_cons]
    split
    · rw [byteLength_cons, byteLength_cons]
      omega
    · exact Nat.zero_le _

/-- No line begins within another one. -/
theorem BeginsLine.lineStop_lt {text : List Char} {n m : Nat} (hn : BeginsLine text n)
    (hm : BeginsLine text m) (hlt : n < m) : lineStop text n < m := by
  obtain ⟨u, v, rfl, rfl, -⟩ := hn
  obtain ⟨x, y, htext, rfl, hend⟩ := hm
  obtain ⟨w, rfl, rfl⟩ := exists_append_of_byteLength_le htext (Nat.le_of_lt hlt)
  -- What stands between the two beginnings ends with a newline, and the first line ends before it.
  rcases w.eq_nil_or_concat with rfl | ⟨init, c, rfl⟩
  · rw [List.append_nil] at hlt
    exact absurd hlt (Nat.lt_irrefl _)
  · have hc : c = '\n' := hend c (by simp)
    have hstop : ((c : Char) != '\n') = false := by rw [hc]; rfl
    have hle := byteLength_takeWhile_le (p := (· != '\n')) hstop init y
    have hpos := Char.utf8Size_pos c
    rw [List.concat_eq_append, List.append_assoc, List.singleton_append, lineStop_eq]
    simp only [byteLength_append, byteLength_cons, byteLength_nil]
    omega

theorem byteLength_unlines_concat (ls : List (List Char)) (l : List Char) :
    byteLength (unlines (ls ++ [l])) = byteLength (unlines ls) + byteLength l + 1 := by
  have hnewline : ('\n').utf8Size = 1 := rfl
  simp only [unlines_append, unlines_cons, unlines_nil, byteLength_append, byteLength_cons,
    byteLength_nil, hnewline]
  omega

theorem beginsLine_unlines (ls : List (List Char)) (rest : List Char) :
    BeginsLine (unlines ls ++ rest) (byteLength (unlines ls)) :=
  ⟨_, _, rfl, rfl, lineEnded_unlines ls⟩

/-- Behind some lines stands the next one, up to its newline. -/
theorem line_unlines (a : List (List Char)) {l : List Char} (hl : '\n' ∉ l) (rest : List Char) :
    lineFrom (unlines a ++ (l ++ '\n' :: rest)) (byteLength (unlines a)) = l ∧
      lineStop (unlines a ++ (l ++ '\n' :: rest)) (byteLength (unlines a)) + 1 =
        byteLength (unlines (a ++ [l])) := by
  have hall : ∀ c ∈ l, (c != '\n') = true := by
    intro c hc
    rw [bne_iff_ne]
    rintro rfl
    exact hl hc
  have hline : (l ++ '\n' :: rest).takeWhile (· != '\n') = l := by
    rw [List.takeWhile_append_of_pos hall, List.takeWhile_cons_of_neg (by simp), List.append_nil]
  rw [lineFrom, dropBytes_byteLength, lineStop_eq, hline, byteLength_unlines_concat]
  exact ⟨rfl, rfl⟩

theorem exists_unlines_of_lineEnded {text : List Char} (h : LineEnded text) :
    ∃ ls, text = unlines ls ∧ ∀ l ∈ ls, '\n' ∉ l := by
  obtain ⟨ls, w, rfl, hls, hw⟩ := exists_unlines text
  rcases w.eq_nil_or_concat with rfl | ⟨init, c, rfl⟩
  · exact ⟨ls, List.append_nil _, hls⟩
  · have hc : c = '\n' := h c (by simp)
    exact absurd (by simp [hc]) hw

theorem unlines_injective {ls ms : List (List Char)} (hls : ∀ l ∈ ls, '\n' ∉ l)
    (hms : ∀ l ∈ ms, '\n' ∉ l) (h : unlines ls = unlines ms) : ls = ms := by
  have hsplit := congrArg (split (· == '\n')) h
  rw [split_unlines hls, split_unlines hms] at hsplit
  exact List.append_cancel_right hsplit

/-- A line that begins within some lines, or behind them, begins between two of them. -/
theorem exists_cut_of_beginsLine {ls : List (List Char)} (hls : ∀ l ∈ ls, '\n' ∉ l)
    {rest : List Char} {n : Nat} (h : BeginsLine (unlines ls ++ rest) n)
    (hle : n ≤ byteLength (unlines ls)) : ∃ a b, ls = a ++ b ∧ n = byteLength (unlines a) := by
  obtain ⟨x, y, htext, rfl, hx⟩ := h
  obtain ⟨w, hw, -⟩ := exists_append_of_byteLength_le htext.symm hle
  have hend := lineEnded_unlines ls
  rw [hw] at hend
  obtain ⟨a, rfl, ha⟩ := exists_unlines_of_lineEnded hx
  obtain ⟨b, rfl, hb⟩ := exists_unlines_of_lineEnded hend.of_append
  rw [← unlines_append] at hw
  have hab : ∀ l ∈ a ++ b, '\n' ∉ l := fun l hl => (List.mem_append.1 hl).elim (ha l) (hb l)
  exact ⟨a, b, unlines_injective hls hab hw, rfl⟩

/-! ## The run -/

/-- The comment lines above the line at byte `start` begin at byte `lead`: there begins a line, from
there on all lines up to `start` are comment lines, and the line in front, if there is one, is none. -/
structure CommentRun (text : List Char) (lead start : Nat) : Prop where
  begins : BeginsLine text lead
  le : lead ≤ start
  comments : ∀ n, BeginsLine text n → lead ≤ n → n < start → OpensComment (lineFrom text n)
  stops : lead = 0 ∨
    ∃ n, BeginsLine text n ∧ lineStop text n + 1 = lead ∧ ¬ OpensComment (lineFrom text n)

theorem CommentRun.le_of_run {text : List Char} {a b start : Nat} (ha : CommentRun text a start)
    (hb : CommentRun text b start) : b ≤ a := by
  by_contra hlt
  have hle := hb.le
  obtain hzero | ⟨n, hn, hstop, hnot⟩ := hb.stops
  · omega
  · -- The line in front of the run from `b` stands in the run from `a`, and is no comment line.
    have hline : n ≤ lineStop text n := Nat.le_add_right _ _
    have han : a ≤ n := by
      by_contra hna
      have hinside := hn.lineStop_lt ha.begins (by omega)
      omega
    exact hnot (ha.comments n hn han (by omega))

theorem CommentRun.unique {text : List Char} {a b start : Nat} (ha : CommentRun text a start)
    (hb : CommentRun text b start) : a = b :=
  Nat.le_antisymm (hb.le_of_run ha) (ha.le_of_run hb)

/-- A line that begins no earlier than where the lines above end is one of the lines behind them. -/
theorem mem_of_unlines_le {above comment a b : List (List Char)} {l : List Char}
    (heq : above ++ comment = a ++ l :: b)
    (hle : byteLength (unlines above) ≤ byteLength (unlines a)) : l ∈ comment := by
  rcases List.append_eq_append_iff.1 heq with ⟨m, rfl, hm⟩ | ⟨m, rfl, hm⟩
  · rw [hm]
    simp
  · cases m with
    | nil =>
      rw [← List.nil_append comment, ← hm]
      exact List.mem_cons_self ..
    | cons first m =>
      have hpos := Char.utf8Size_pos '\n'
      rw [unlines_append, unlines_cons, byteLength_append, byteLength_append, byteLength_cons] at hle
      omega

/-- The run above some lines consists of the comment lines that end them. -/
theorem commentRun_unlines {ls : List (List Char)} (hls : ∀ l ∈ ls, '\n' ∉ l) (rest : List Char) :
    CommentRun (unlines ls ++ rest) (byteLength (unlines (ls.rdropWhile isCommentLine)))
      (byteLength (unlines ls)) := by
  have hsplit : ls.rdropWhile isCommentLine ++ ls.rtakeWhile isCommentLine = ls :=
    List.rdropWhile_append_rtakeWhile
  have hcomment : ∀ l ∈ ls.rtakeWhile isCommentLine, isCommentLine l = true :=
    fun _ => List.mem_rtakeWhile_imp
  have hlast := List.rdropWhile_last_not isCommentLine ls
  generalize ls.rdropWhile isCommentLine = above at hsplit hlast ⊢
  generalize ls.rtakeWhile isCommentLine = comment at hsplit hcomment
  subst hsplit
  -- From here on only three facts count: `ls` is `above ++ comment`, the lines of `comment` are comment
  -- lines, and the last line of `above` is none.
  constructor
  case begins =>
    rw [unlines_append, List.append_assoc]
    exact beginsLine_unlines above _
  case le =>
    rw [unlines_append, byteLength_append]
    exact Nat.le_add_right _ _
  case comments =>
    intro n hn hle hlt
    obtain ⟨a, b, hab, rfl⟩ := exists_cut_of_beginsLine hls hn (Nat.le_of_lt hlt)
    cases b with
    | nil =>
      rw [hab, List.append_nil] at hlt
      exact absurd hlt (Nat.lt_irrefl _)
    | cons l b =>
      have hl := mem_of_unlines_le hab hle
      rw [hab, unlines_append, unlines_cons, List.append_assoc, List.append_assoc,
        List.cons_append, (line_unlines a (hls l (List.mem_append_right _ hl)) _).1]
      exact isCommentLine_iff.1 (hcomment l hl)
  case stops =>
    rcases above.eq_nil_or_concat with rfl | ⟨init, l, rfl⟩
    · exact .inl rfl
    · rw [List.concat_eq_append] at hls hlast ⊢
      have hl : '\n' ∉ l := hls l (by simp)
      obtain ⟨hline, hstop⟩ := line_unlines init hl (unlines comment ++ rest)
      have htext : unlines (init ++ [l] ++ comment) ++ rest =
          unlines init ++ (l ++ '\n' :: (unlines comment ++ rest)) := by
        simp
      rw [htext]
      refine .inr ⟨_, beginsLine_unlines init _, hstop, ?_⟩
      rw [hline, ← isCommentLine_iff]
      simpa using hlast

/-! ## The walk -/

/-- The byte of the last newline. -/
def lastNewline? : List Char → Option Nat
  | [] => none
  | c :: rest =>
    match lastNewline? rest with
    | some n => some (c.utf8Size + n)
    | none => if c = '\n' then some 0 else none

/-- The start of the last line, behind the last newline. -/
def lastLineStart (text : List Char) : Nat := (lastNewline? text).elim 0 (· + 1)

theorem lastNewline?_lt {text : List Char} {n : Nat} (h : lastNewline? text = some n) :
    n < byteLength text := by
  induction text generalizing n with
  | nil => simp [lastNewline?] at h
  | cons c rest ih =>
    have hpos := Char.utf8Size_pos c
    rw [byteLength_cons]
    rw [lastNewline?] at h
    split at h
    · rename_i k hk
      have hlt := ih hk
      rw [Option.some.injEq] at h
      omega
    · split at h
      · rw [Option.some.injEq] at h
        omega
      · simp at h

theorem lastLineStart_le (text : List Char) : lastLineStart text ≤ byteLength text := by
  rw [lastLineStart]
  cases h : lastNewline? text with
  | none => exact Nat.zero_le _
  | some n => exact lastNewline?_lt h

theorem lastNewline?_eq_none {text : List Char} (h : '\n' ∉ text) : lastNewline? text = none := by
  induction text with
  | nil => rfl
  | cons c rest ih =>
    rw [List.mem_cons, not_or] at h
    rw [lastNewline?, ih h.2]
    exact if_neg (Ne.symm h.1)

theorem lastNewline?_append (a : List Char) {l : List Char} (hl : '\n' ∉ l) :
    lastNewline? (a ++ '\n' :: l) = some (byteLength a) := by
  induction a with
  | nil =>
    rw [List.nil_append, lastNewline?, lastNewline?_eq_none hl]
    rfl
  | cons c a ih => rw [List.cons_append, lastNewline?, ih, byteLength_cons]

theorem lastLineStart_unlines (ls : List (List Char)) {l : List Char} (hl : '\n' ∉ l) :
    lastLineStart (unlines ls ++ l) = byteLength (unlines ls) := by
  rw [lastLineStart]
  rcases ls.eq_nil_or_concat with rfl | ⟨init, last, rfl⟩
  · rw [unlines_nil, List.nil_append, lastNewline?_eq_none hl]
    rfl
  · have htext : unlines (init.concat last) ++ l = unlines init ++ last ++ '\n' :: l := by simp
    rw [htext, lastNewline?_append _ hl, Option.elim_some, List.concat_eq_append,
      byteLength_unlines_concat, byteLength_append]

/-- The start of the run of comment lines above the line that begins at byte `lead`, found line by
line. None where the text would have to be read at a place that is none of it. -/
def walkUp? (text : List Char) (lead : Nat) : Option Nat :=
  if 0 < lead then
    match _hfront : slice? 0 (lead - 1) text with
    | none => none
    | some front =>
      match slice? (lastLineStart front) (lead - 1) text with
      | none => none
      | some line =>
        if isCommentLine line then walkUp? text (lastLineStart front) else some lead
  else some lead
termination_by lead
decreasing_by
  have hfront := byteLength_of_slice? _hfront
  have hle := lastLineStart_le front
  omega

theorem walkUp?_of_slices {text front line : List Char} {lead : Nat} (hpos : 0 < lead)
    (hfront : slice? 0 (lead - 1) text = some front)
    (hline : slice? (lastLineStart front) (lead - 1) text = some line) :
    walkUp? text lead =
      if isCommentLine line then walkUp? text (lastLineStart front) else some lead := by
  rw [walkUp?, if_pos hpos]
  split
  · rename_i hnone
    rw [hfront] at hnone
    simp at hnone
  · rename_i other hother
    rw [hfront, Option.some.injEq] at hother
    subst hother
    rw [hline]

/-- One round of the walk passes a comment line and stays in front of any other line. -/
theorem walkUp?_line (ls : List (List Char)) {l : List Char} (hl : '\n' ∉ l) (rest : List Char) :
    walkUp? (unlines ls ++ (l ++ '\n' :: rest)) (byteLength (unlines (ls ++ [l]))) =
      if isCommentLine l then
        walkUp? (unlines ls ++ (l ++ '\n' :: rest)) (byteLength (unlines ls))
      else some (byteLength (unlines (ls ++ [l]))) := by
  have hpos : 0 < byteLength (unlines ls) + byteLength l + 1 := Nat.succ_pos _
  have hfront := slice?_append [] (unlines ls ++ l) ('\n' :: rest)
  have hline : slice? (lastLineStart (unlines ls ++ l)) (byteLength (unlines ls) + byteLength l)
      (unlines ls ++ (l ++ '\n' :: rest)) = some l := by
    rw [lastLineStart_unlines ls hl]
    exact slice?_append (unlines ls) l _
  rw [List.nil_append, byteLength_nil, Nat.zero_add, byteLength_append, List.append_assoc] at hfront
  rw [byteLength_unlines_concat, walkUp?_of_slices hpos hfront hline, lastLineStart_unlines ls hl]

/-- The walk from behind some lines passes the comment lines that end them. -/
theorem walkUp?_unlines {ls : List (List Char)} (hls : ∀ l ∈ ls, '\n' ∉ l) (rest : List Char) :
    walkUp? (unlines ls ++ rest) (byteLength (unlines ls)) =
      some (byteLength (unlines (ls.rdropWhile isCommentLine))) := by
  -- The walk goes from below: the line it passes is the last one, and belongs to `rest` afterwards.
  induction ls using List.reverseRecOn generalizing rest with
  | nil => rw [walkUp?]; rfl
  | append_singleton ls l ih =>
    have hl : '\n' ∉ l := hls l (by simp)
    have htext : unlines (ls ++ [l]) ++ rest = unlines ls ++ (l ++ '\n' :: rest) := by simp
    rw [htext, walkUp?_line ls hl rest, List.rdropWhile_concat]
    split
    · exact ih (fun m hm => hls m (List.mem_append_left _ hm)) _
    · rfl

/-- The walk reads only between places of the text, and it ends where the run begins. -/
theorem walkUp?_of_beginsLine {text : List Char} {start : Nat} (h : BeginsLine text start) :
    walkUp? text start = some (leadStart text start) ∧
      CommentRun text (leadStart text start) start := by
  obtain ⟨before, after, rfl, rfl, hend⟩ := h
  obtain ⟨ls, rfl, hls⟩ := exists_unlines_of_lineEnded hend
  rw [leadStart_unlines hls]
  exact ⟨walkUp?_unlines hls after, commentRun_unlines hls after⟩

/-- **The walk finds the comment lines above a line.** From the beginning of a line it comes to an
end, and all its reads lie between places of the text, in order. It ends where the run of comment
lines above the line begins, and the run begins nowhere else. -/
theorem walkUp?_finds {text : List Char} {start : Nat} (h : BeginsLine text start) :
    ∃ lead, walkUp? text start = some lead ∧ leadStart text start = lead ∧
      CommentRun text lead start ∧ ∀ other, CommentRun text other start → other = lead := by
  obtain ⟨hwalk, hrun⟩ := walkUp?_of_beginsLine h
  exact ⟨_, hwalk, rfl, hrun, fun _ hother => hother.unique hrun⟩

/-- Two comment lines behind a blank line, with carriage returns. -/
def commentedLine : String := "package p\r\n\r\n\t// a\r\n  // b\r\n\"x\""

/-- The walk from the last line of `commentedLine` ends behind the blank line. -/
theorem comments_behind_blank_line :
    BeginsLine commentedLine.toList 28 ∧ walkUp? commentedLine.toList 28 = some 13 ∧
      CommentRun commentedLine.toList 13 28 := by
  have hbegins : BeginsLine commentedLine.toList 28 :=
    ⟨commentedLine.toList.take 28, "\"x\"".toList, by decide, by decide, by decide⟩
  have hwalk : walkUp? commentedLine.toList 28 = some 13 := by decide +kernel
  obtain ⟨lead, hlead, -, hrun, -⟩ := walkUp?_finds hbegins
  rw [hwalk, Option.some.injEq] at hlead
  subst hlead
  exact ⟨hbegins, hwalk, hrun⟩

/-- Comment lines reach up to the start of the text; from within a character nothing is read. -/
example : walkUp? "// a\n// b\n\"x\"".toList 10 = some 0 ∧ walkUp? "é\n".toList 2 = none := by
  decide +kernel

end PinnedImports.Imports
