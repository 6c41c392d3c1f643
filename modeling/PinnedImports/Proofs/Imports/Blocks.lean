import PinnedImports.Proofs.Imports.Cuts
import PinnedImports.Proofs.Imports.Entries
import PinnedImports.Proofs.Imports.Leads

/-!
# Blocks with groups written anew

A block is cut at its groups (`Rows.grouped`). A group that is written anew is exchanged for
lines that import the same, up to the substitutions, and everything else of the block stays
(`Grouped.exists_spliced`). What it takes is that the comment lines above each written group are
comments: that their run begins in code. Then the block is again the inside of an import
declaration.
-/

set_option autoImplicit false

namespace PinnedImports.Imports

open Text Go

/-- Lines import the same wherever they stand. -/
theorem exists_moved {whole : Bool} {m : Nat} {specs : List ImportSpec} {cs : List Char}
    (h : Lines whole m specs cs) (n : Nat) :
    ∃ specs', Lines whole n specs' cs ∧ pairsOf specs' = pairsOf specs := by
  obtain ⟨specs', hlines, hmap⟩ := h.move n
  have hpairs (vs : List ImportSpec) : pairsOf vs =
      (vs.map fun v => (v.name, v.text)).filterMap fun v =>
        (unquote? v.2).map fun path => (v.1, path) := by
    rw [List.filterMap_map]
    rfl
  exact ⟨specs', hlines, by rw [hpairs, hpairs, hmap]⟩

/-! ## Rows as entries -/

/-- An entry imports what its specification does, up to the substitutions. -/
theorem ofSpec_pair (text : List Char) (subs : Dictionary String) (row : Import × SpecLine) :
    (Entry.ofSpec text subs row).pair = substituted subs (row.1.name, row.1.path) := by
  rw [Entry.ofSpec, Entry.pair, substituted]
  cases subs.get? row.1.path <;> rfl

namespace RowText

variable {before : List Char} (r : RowText before) {subs : Dictionary String}

/-- The line of a row is the line of one specification. -/
theorem lines (n : Nat) : Lines true n [r.spec.placed (byteLength (r.tail ++ ['\n']) + n)] r.line := by
  have hline := Lines.line (s := r.spec) r.blanks r.closes (.done .nil : Lines true n [] [])
  rwa [List.append_nil] at hline

theorem pair?_placed (n : Nat) (block : Option Nat) :
    pair? (r.spec.placed n) = some ((r.imported block).name, (r.imported block).path) := by
  rw [Imports.pair?_placed, textPair?, r.unquoted]
  rfl

theorem scan_line : scan .code r.line = .code := scan_lines (r.lines 0)

/-- An entry whose comment is one is the comment and the line of a specification. -/
theorem reads {text rest : List Char} (htext : text = before ++ (r.chars ++ rest))
    (hcomment : Blanks (unlines r.comment)) (honeLine : OneLine subs) (block : Option Nat) :
    (Entry.ofSpec text subs (r.imported block, r.specLine)).Reads := by
  obtain ⟨c, habove, hhead, hliteral, htail⟩ := r.exists_rowCut htext block
  have hline := c.ofSpec_line subs
  rw [hhead, hliteral, htail] at hline
  have hpath : (r.imported block).path = r.path := rfl
  have hpair : (Entry.ofSpec text subs (r.imported block, r.specLine)).pair =
      substituted subs (r.spec.name.map String.ofList, r.path) := ofSpec_pair text subs _
  have hcommentAbove : (Entry.ofSpec text subs (r.imported block, r.specLine)).comment =
      unlines r.comment := by
    rw [ofSpec_comment, c.commentAbove_eq, habove]
  refine ⟨hcommentAbove ▸ hcomment, ?_⟩
  rw [hpair, hline, substituted, hpath]
  cases hnew : subs.get? r.path with
  | none =>
    refine ⟨r.indent, r.tail, r.spec, r.blanks, r.closes, ?_, ?_⟩
    · rw [SpecText.chars]
      simp
    · rw [textPair?, r.unquoted]
      rfl
  | some new =>
    -- The literal of the new path takes the place of the old one.
    refine ⟨r.indent, r.tail, quoted r.spec (honeLine _ _ hnew), r.blanks, r.closes, ?_,
      quoted_pair? _ _⟩
    rw [quoted_chars]
    simp

end RowText

/-! ## Rows directly behind each other -/

/-- Rows of which each has nothing but its comment above it. -/
inductive Chained (block : Option Nat) :
    List Char → List (Import × SpecLine) → List Char → Prop
  | done {before : List Char} : Chained block before [] []
  | row {before rest : List Char} {rows : List (Import × SpecLine)} (r : RowText before) :
      r.between = unlines r.comment → Blanks r.between →
        Chained block (before ++ r.chars) rows rest →
          Chained block before ((r.imported block, r.specLine) :: rows) (r.chars ++ rest)

/-- The names and the paths that rows import. -/
def pairsOfRows (rows : List (Import × SpecLine)) : List (Option String × String) :=
  rows.map fun row => (row.1.name, row.1.path)

namespace Chained

variable {block : Option Nat} {before seg : List Char} {rows : List (Import × SpecLine)}

theorem seg_eq_nil (h : Chained block before [] seg) : seg = [] := by
  cases h
  rfl

/-- Rows behind each other are lines of their imports. -/
theorem exists_lines (h : Chained block before rows seg) (n : Nat) :
    ∃ specs, Lines true n specs seg ∧ pairsOf specs = pairsOfRows rows := by
  induction h with
  | done => exact ⟨[], .done .nil, rfl⟩
  | @row before rest rows r _ hblanks _ ih =>
    obtain ⟨specs, hlines, hpairs⟩ := ih
    have hrow := ((r.lines (byteLength rest + n)).prepend hblanks).append hlines
    refine ⟨_, hrow, ?_⟩
    rw [pairsOf, List.singleton_append, List.filterMap_cons, r.pair?_placed _ block, ← pairsOf,
      hpairs]
    rfl

theorem exists_body (h : Chained block before rows seg) :
    seg = [] ∨ ∃ body, seg = body ++ ['\n'] := by
  induction h with
  | done => exact .inl rfl
  | @row before seg rows r _ _ _ ih =>
    right
    rcases ih with rfl | ⟨body, rfl⟩
    · refine ⟨r.between ++ (r.indent ++ (r.spec.chars ++ r.tail)), ?_⟩
      rw [RowText.chars, RowText.line]
      simp
    · exact ⟨r.chars ++ body, by rw [List.append_assoc]⟩

/-- The entries of rows behind each other. -/
theorem reads {text rest : List Char} {subs : Dictionary String}
    (h : Chained block before rows seg) (honeLine : OneLine subs)
    (htext : text = before ++ (seg ++ rest)) :
    ∀ row ∈ rows, (Entry.ofSpec text subs row).Reads := by
  induction h with
  | done => intro row hrow; simp at hrow
  | @row before seg rows r hbetween hblanks _ ih =>
    intro row hrow
    have hchars : text = before ++ (r.chars ++ (seg ++ rest)) := by
      rw [htext, List.append_assoc]
    rcases List.mem_cons.1 hrow with rfl | hrow
    · rw [hbetween] at hblanks
      exact r.reads hchars hblanks honeLine block
    · apply ih _ row hrow
      rw [hchars, List.append_assoc]

/-- Behind rows a text is in code, and no run of comment lines reaches into them. -/
theorem guarded (h : Chained block before rows seg) (hcode : scan .code before = .code)
    (hguard : Guarded before) : scan .code (before ++ seg) = .code ∧ Guarded (before ++ seg) := by
  induction h with
  | done =>
    rw [List.append_nil]
    exact ⟨hcode, hguard⟩
  | @row before seg rows r _ hblanks _ ih =>
    have hbetween : scan .code (before ++ r.between) = .code := by
      rw [scan_code_append hcode]
      exact scan_blanks hblanks
    rw [← List.append_assoc]
    apply ih
    · rw [RowText.chars, ← List.append_assoc, scan_code_append hbetween]
      exact r.scan_line
    · rw [RowText.chars, ← List.append_assoc]
      exact guarded_line hbetween r.blanks r.closes

/-- The last of several rows ends where they do, before its line break. -/
theorem last_stop (h : Chained block before rows seg) :
    ∀ last ∈ rows.getLast?, last.2.stop + 1 = byteLength (before ++ seg) := by
  induction h with
  | done => intro last hlast; simp at hlast
  | @row before seg rows r _ _ hrows ih =>
    intro last hlast
    cases hrows with
    | done =>
      rw [List.getLast?_singleton, Option.mem_some_iff] at hlast
      rw [← hlast, List.append_nil, r.byteLength_chars]
      rfl
    | row r' hbetween hblanks hrest =>
      rw [List.getLast?_cons_cons] at hlast
      rw [← List.append_assoc]
      exact ih last hlast

end Chained

/-! ## The first group -/

/-- A row whose lines begin where the text before it ends has nothing but its comment above it. -/
theorem RowText.between_eq {before : List Char} (r : RowText before)
    (h : r.specLine.lead = byteLength before) : r.between = unlines r.comment :=
  (append_inj_of_byteLength_eq r.above_eq h.symm).2

/-- The rows of a group, with the text in front of the first one. All of it stands behind
`before`. -/
structure GroupText (block : Option Nat) (before : List Char) where
  first : RowText before
  idle : List ImportSpec
  group : List (Import × SpecLine)
  seg : List Char
  lines : ∃ n, Lines true n idle first.between
  isIdle : Idle idle
  chained : Chained block (before ++ first.chars) group seg

namespace GroupText

variable {block : Option Nat} {before : List Char} (g : GroupText block before)

/-- All rows of the group. -/
def all : List (Import × SpecLine) := (g.first.imported block, g.first.specLine) :: g.group

/-- The text up to the end of the group, line break included. -/
def chars : List Char := g.first.chars ++ g.seg

/-- Behind the group a text is in code, and no run of comment lines reaches into it. -/
theorem guarded (hcode : scan .code before = .code) :
    scan .code (before ++ g.chars) = .code ∧ Guarded (before ++ g.chars) := by
  obtain ⟨n, hlines⟩ := g.lines
  have hbetween : scan .code (before ++ g.first.between) = .code := by
    rw [scan_code_append hcode]
    exact scan_lines hlines
  rw [chars, ← List.append_assoc]
  apply g.chained.guarded
  · rw [RowText.chars, ← List.append_assoc, scan_code_append hbetween]
    exact g.first.scan_line
  · rw [RowText.chars, ← List.append_assoc]
    exact guarded_line hbetween g.first.blanks g.first.closes

theorem last_stop : ∀ last ∈ g.all.getLast?, last.2.stop + 1 = byteLength (before ++ g.chars) := by
  intro last hlast
  rw [chars, ← List.append_assoc]
  cases hgroup : g.group with
  | nil =>
    have hseg := g.chained
    rw [hgroup] at hseg
    rw [all, hgroup, List.getLast?_singleton, Option.mem_some_iff] at hlast
    rw [← hlast, hseg.seg_eq_nil, List.append_nil, g.first.byteLength_chars]
    rfl
  | cons row group =>
    apply g.chained.last_stop
    rwa [all, hgroup, List.getLast?_cons_cons, ← hgroup] at hlast

/-- The group is lines of its imports. -/
theorem exists_lines (n : Nat) :
    ∃ specs, Lines true n specs g.chars ∧ pairsOf specs = pairsOfRows g.all := by
  obtain ⟨m, hlines⟩ := g.lines
  obtain ⟨specs, hseg, hpairs⟩ := g.chained.exists_lines n
  obtain ⟨idle, hidle, hnone⟩ := exists_moved hlines (byteLength (g.first.line ++ g.seg) + n)
  rw [pairsOf_idle g.isIdle] at hnone
  have hall := hidle.append ((g.first.lines (byteLength g.seg + n)).append hseg)
  have hchars : g.chars = g.first.between ++ (g.first.line ++ g.seg) := by
    rw [chars, RowText.chars, List.append_assoc]
  rw [← hchars] at hall
  refine ⟨_, hall, ?_⟩
  rw [pairsOf_append, hnone, List.nil_append, List.singleton_append, pairsOf,
    List.filterMap_cons, g.first.pair?_placed _ block, ← pairsOf, hpairs]
  rfl

/-- The lines of the group without the comment above them end with a line break. -/
theorem exists_body : ∃ body, body ≠ [] ∧ g.first.line ++ g.seg = body ++ ['\n'] := by
  obtain ⟨c, cs, hspec, -⟩ := g.first.spec.chars_start
  have hline : g.first.line =
      g.first.indent ++ (g.first.spec.chars ++ g.first.tail) ++ ['\n'] := by
    rw [RowText.line]
    simp
  rcases g.chained.exists_body with hnil | ⟨body, hbody⟩
  · rw [hnil, List.append_nil]
    exact ⟨_, by simp [hspec], hline⟩
  · rw [hbody, ← List.append_assoc]
    exact ⟨_, by simp [hline], rfl⟩

/-- A group that is written anew is exchanged for lines that import the same up to the substitutions,
if the run of comment lines above it begins in code. -/
theorem exists_written {text behind : List Char} {subs : Dictionary String}
    (htext : text = before ++ (g.chars ++ behind)) (hcode : scan .code before = .code)
    (hguard : Guarded before)
    (hlead : scan .code (takeBytes g.first.specLine.lead text) = .code) :
    ∃ u old, g.chars = u ++ (old ++ ['\n']) ∧ old ≠ [] ∧
      g.first.specLine.lead = byteLength (before ++ u) ∧
        (∀ last ∈ g.all.getLast?, last.2.stop = byteLength (before ++ u) + byteLength old) ∧
          (OneLine subs → ∀ n, ∃ specs,
            Lines true n specs (u ++ (groupText text subs g.all ++ ['\n'])) ∧
              ∀ p, p ∈ pairsOf specs ↔ p ∈ (pairsOfRows g.all).map (substituted subs)) := by
  obtain ⟨m, hlines⟩ := g.lines
  have hfirst : text = before ++ (g.first.chars ++ (g.seg ++ behind)) := by
    rw [htext, chars, List.append_assoc]
  have habove : takeBytes g.first.specLine.lead text = unlines g.first.above := by
    have hcut : text = unlines g.first.above ++
        (unlines g.first.comment ++ (g.first.line ++ (g.seg ++ behind))) := by
      rw [hfirst, RowText.chars, List.append_assoc, ← List.append_assoc before, g.first.above_eq,
        List.append_assoc]
    rw [hcut]
    exact takeBytes_byteLength _ _
  rw [habove] at hlead
  obtain ⟨u, hbetween, hu, hidle, hcomment⟩ := g.first.exists_lead hcode hguard hlines hlead
  -- The line break at the end of the group stays.
  obtain ⟨body, hne, hbody⟩ := g.exists_body
  have hchars : g.chars = u ++ (unlines g.first.comment ++ body ++ ['\n']) := by
    rw [chars, RowText.chars, hbetween, List.append_assoc, List.append_assoc, hbody]
    simp
  have hleadEq : g.first.specLine.lead = byteLength (before ++ u) := congrArg byteLength hu
  refine ⟨u, unlines g.first.comment ++ body, hchars, ?_, hleadEq, ?_, ?_⟩
  · exact List.append_ne_nil_of_right_ne_nil _ hne
  · intro last hlast
    have hstop := g.last_stop last hlast
    have hnl : ('\n' : Char).utf8Size = 1 := rfl
    rw [hchars] at hstop
    simp only [byteLength_append, byteLength_cons, byteLength_nil, hnl] at hstop ⊢
    omega
  · intro honeLine n
    have hreads : ∀ row ∈ g.all, (Entry.ofSpec text subs row).Reads := by
      intro row hrow
      rcases List.mem_cons.1 hrow with rfl | hrow
      · exact g.first.reads hfirst hcomment honeLine block
      · have hseg : text = before ++ g.first.chars ++ (g.seg ++ behind) := by
          rw [hfirst, List.append_assoc]
        exact g.chained.reads honeLine hseg row hrow
    obtain ⟨specs, hwritten, hpairs⟩ := exists_lines_groupText (by simp [all]) hreads n
    obtain ⟨idle, hidle', hnone⟩ := exists_moved hidle
      (byteLength (groupText text subs g.all ++ ['\n']) + n)
    rw [pairsOf_idle g.isIdle] at hnone
    refine ⟨_, hidle'.append hwritten, fun p => ?_⟩
    rw [pairsOf_append, hnone, List.nil_append, hpairs, pairsOfRows, List.map_map, List.mem_map]
    simp only [ofSpec_pair, Function.comp_apply]

end GroupText

/-! ## All groups -/

/-- The inside of the parentheses of a block, cut at the groups of its imports. -/
inductive Grouped (after : Nat) (block : Option Nat) :
    List Char → List (List (Import × SpecLine)) → List Char → Prop
  | done {before cs : List Char} {specs : List ImportSpec} :
      Lines false after specs cs → Idle specs → Grouped after block before [] cs
  | group {before rest : List Char} {gs : List (List (Import × SpecLine))}
      (g : GroupText block before) :
      Grouped after block (before ++ g.chars) gs rest →
        Grouped after block before (g.all :: gs) (g.chars ++ rest)

theorem groups_cons_of_nil {row : Import × SpecLine} {rows : List (Import × SpecLine)}
    (h : groups rows = []) : groups (row :: rows) = [[row]] := by
  rw [groups, h]

theorem groups_cons_of_cons {row next : Import × SpecLine} {rows group : List (Import × SpecLine)}
    {others : List (List (Import × SpecLine))} (h : groups rows = (next :: group) :: others) :
    groups (row :: rows) =
      if row.2.stop + 1 = next.2.lead then (row :: next :: group) :: others
      else [row] :: (next :: group) :: others := by
  rw [groups, h]

/-- **A block that is cut at its rows is cut at its groups.** -/
theorem Rows.grouped {after : Nat} {block : Option Nat} {before cs : List Char}
    {rows : List (Import × SpecLine)} (h : Rows after block before rows cs) :
    Grouped after block before (groups rows) cs := by
  induction h with
  | done hlines hidle => exact .done hlines hidle
  | @row before cs idle rows r hlines hidle _ ih =>
    have halone {gs : List (List (Import × SpecLine))}
        (hgs : Grouped after block (before ++ r.chars) gs cs) :
        Grouped after block before ([(r.imported block, r.specLine)] :: gs) (r.chars ++ cs) := by
      obtain ⟨g, hall, hchars⟩ : ∃ g : GroupText block before,
          g.all = [(r.imported block, r.specLine)] ∧ g.chars = r.chars :=
        ⟨⟨r, idle, [], [], ⟨_, hlines⟩, hidle, .done⟩, rfl, List.append_nil _⟩
      rw [← hall, ← hchars]
      apply Grouped.group
      rwa [hchars]
    obtain ⟨gs, hgs⟩ : ∃ gs, groups rows = gs := ⟨_, rfl⟩
    rw [hgs] at ih
    cases ih with
    | done hlines' hidle' =>
      rw [groups_cons_of_nil hgs]
      exact halone (.done hlines' hidle')
    | @group _ rest gs g hrest =>
      rw [groups_cons_of_cons hgs]
      split
      · -- The next group goes on directly behind this row.
        rename_i hnext
        have hlead : g.first.specLine.lead = byteLength (before ++ r.chars) := by
          rw [r.byteLength_chars]
          exact hnext.symm
        have hbetween := g.first.between_eq hlead
        have hblanks : Blanks g.first.between := by
          obtain ⟨n, hlines'⟩ := g.lines
          have hcut : g.first.between = [] ++ unlines g.first.comment := hbetween
          rw [hbetween]
          exact (cut_lines hlines' hcut lineEnded_nil (scan_nil .code) g.first.isComment).2
        obtain ⟨joined, hall, hchars⟩ : ∃ joined : GroupText block before,
            joined.all = (r.imported block, r.specLine) :: g.all ∧
              joined.chars = r.chars ++ g.chars :=
          ⟨⟨r, idle, g.all, g.chars, ⟨_, hlines⟩, hidle, .row g.first hbetween hblanks g.chained⟩,
            rfl, rfl⟩
        rw [← List.append_assoc, ← hchars]
        refine hall ▸ Grouped.group joined ?_
        rwa [hchars, ← List.append_assoc]
      · exact halone (.group g hrest)

theorem map_substituted_of_none {subs : Dictionary String} {rows : List (Import × SpecLine)}
    (h : ¬(rows.any fun row => subs.contains row.1.path) = true) :
    (pairsOfRows rows).map (substituted subs) = pairsOfRows rows := by
  rw [pairsOfRows, List.map_map]
  refine List.map_congr_left fun row hrow => ?_
  have hnone : subs.get? row.1.path = none := by
    rw [Option.eq_none_iff_forall_not_mem]
    intro path hpath
    exact h (List.any_eq_true.2 ⟨row, hrow, Dictionary.contains_iff.2 ⟨path, hpath⟩⟩)
  rw [Function.comp_apply, substituted, hnone]
  rfl

/-- The run of comment lines above a group that is written anew begins in code. -/
def GroupsInCode (text : List Char) (subs : Dictionary String)
    (gs : List (List (Import × SpecLine))) : Prop :=
  ∀ group ∈ gs, (group.any fun row => subs.contains row.1.path) = true →
    ∀ first ∈ group.head?, scan .code (takeBytes first.2.lead text) = .code

instance (text : List Char) (subs : Dictionary String) (gs : List (List (Import × SpecLine))) :
    Decidable (GroupsInCode text subs gs) :=
  inferInstanceAs (Decidable (∀ group ∈ gs,
    (group.any fun row => subs.contains row.1.path) = true →
      ∀ first ∈ group.head?, scan .code (takeBytes first.2.lead text) = .code))

theorem mem_map_flatten_cons {subs : Dictionary String} {group : List (Import × SpecLine)}
    {gs : List (List (Import × SpecLine))} {p : Option String × String} :
    p ∈ (pairsOfRows (group :: gs).flatten).map (substituted subs) ↔
      p ∈ (pairsOfRows group).map (substituted subs) ∨
        p ∈ (pairsOfRows gs.flatten).map (substituted subs) := by
  rw [List.flatten_cons, pairsOfRows, List.map_append, List.map_append, List.mem_append]
  rfl

/-- **Where the comment lines above the written groups are comments, writing them anew leaves a block
that imports the same up to the substitutions.** -/
theorem Grouped.exists_spliced {after : Nat} {block : Option Nat} {text before cs : List Char}
    {subs : Dictionary String} {gs : List (List (Import × SpecLine))}
    (h : Grouped after block before gs cs) :
    ∀ {more : List Char}, text = before ++ (cs ++ more) → scan .code before = .code →
      Guarded before → GroupsInCode text subs gs →
        ∃ cs', Spliced (byteLength before) cs (gs.filterMap (groupEdit? text subs)) cs' ∧
          (OneLine subs → ∀ n, ∃ specs, Lines false n specs cs' ∧
            ∀ p, p ∈ pairsOf specs ↔ p ∈ (pairsOfRows gs.flatten).map (substituted subs)) := by
  induction h with
  | @done before cs specs hlines hidle =>
    intro more _ _ _ _
    refine ⟨cs, .keep, fun _ n => ?_⟩
    obtain ⟨specs', hmoved, hpairs⟩ := exists_moved hlines n
    refine ⟨specs', hmoved, fun p => ?_⟩
    rw [hpairs, pairsOf_idle hidle]
    exact Iff.rfl
  | @group before rest gs g _ ih =>
    intro more htext hcode hguard hleads
    have hgroup : text = before ++ (g.chars ++ (rest ++ more)) := by
      rw [htext, List.append_assoc]
    obtain ⟨hcode', hguard'⟩ := g.guarded hcode
    obtain ⟨rest', hspliced, himports⟩ := ih (by rw [hgroup, List.append_assoc]) hcode' hguard'
      fun group hmem => hleads group (List.mem_cons_of_mem _ hmem)
    by_cases hany : (g.all.any fun row => subs.contains row.1.path) = true
    · -- The group is written anew: its edit takes the place of its lines, but for the last line break.
      have hlead := hleads g.all (List.mem_cons_self ..) hany _ rfl
      obtain ⟨u, old, hchars, hne, hstart, hstop, hwritten⟩ :=
        g.exists_written hgroup hcode hguard hlead
      obtain ⟨last, hlast⟩ : ∃ last, last ∈ g.all.getLast? :=
        ⟨_, List.getLast?_eq_getLast_of_ne_nil (by simp [GroupText.all])⟩
      have hedit : groupEdit? text subs g.all = some ⟨byteLength (before ++ u),
          byteLength (before ++ u) + byteLength old, groupText text subs g.all⟩ := by
        refine groupEdit?_eq_some.2 ⟨hany, _, rfl, last, hlast, ?_⟩
        rw [hstop last hlast, ← hstart]
      have hplace : byteLength (before ++ g.chars) =
          byteLength (before ++ u) + byteLength old + byteLength ['\n'] := by
        rw [hchars]
        simp only [byteLength_append, Nat.add_assoc]
      rw [hplace] at hspliced
      rw [List.filterMap_cons, hedit]
      refine ⟨u ++ (groupText text subs g.all ++ (['\n'] ++ rest')), ?_, fun honeLine n => ?_⟩
      · rw [hchars, List.append_assoc, List.append_assoc]
        exact .edit hne (byteLength_append ..) rfl (hspliced.prepend ['\n'])
      · obtain ⟨specs, hlines, himported⟩ := himports honeLine n
        obtain ⟨own, hown, hown'⟩ := hwritten honeLine (byteLength rest' + n)
        have hall := hown.append hlines
        simp only [List.append_assoc] at hall
        refine ⟨own ++ specs, hall, fun p => ?_⟩
        rw [pairsOf_append, List.mem_append, mem_map_flatten_cons, himported, hown']
    · -- No path of the group is substituted, so it stays.
      have hnone : groupEdit? text subs g.all = none := if_neg hany
      rw [List.filterMap_cons, hnone]
      refine ⟨g.chars ++ rest', ?_, fun honeLine n => ?_⟩
      · rw [byteLength_append] at hspliced
        exact hspliced.prepend g.chars
      · obtain ⟨specs, hlines, himported⟩ := himports honeLine n
        obtain ⟨own, hown, hkept⟩ := g.exists_lines (byteLength rest' + n)
        refine ⟨own ++ specs, hown.append hlines, fun p => ?_⟩
        rw [pairsOf_append, List.mem_append, mem_map_flatten_cons, himported,
          map_substituted_of_none hany, hkept]

end PinnedImports.Imports
