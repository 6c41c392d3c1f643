import PinnedImports.Proofs.Imports.Sorting

/-!
# Groups that are in order

A group whose names and paths are strictly increasing behind the substitutions is written anew as it
stands: sorting moves none of its entries, none of them are joined, and what is put between them is
the line break that stands there. Only the string literals of the substituted paths are exchanged,
just as in a block that keeps its order (`groupEdit_of_increasing`).
-/

set_option autoImplicit false

namespace PinnedImports.Imports

open Text Go

/-! ## Entries in order -/

namespace Entry

instance (a b : Entry) : Decidable (a.Before b) :=
  decidable_of_iff (a.le b = true ∧ a.pair ≠ b.pair)
    ⟨fun h => before_of_le h.1 h.2, fun h => ⟨h.le, h.pair_ne⟩⟩

theorem joinSame_go_of_increasing {entries : List Entry} :
    ∀ {first : Entry}, (first :: entries).Pairwise Before →
      joinSame.go first entries = first :: entries := by
  induction entries with
  | nil => exact fun _ => rfl
  | cons next entries ih =>
    intro first h
    obtain ⟨hfirst, hrest⟩ := List.pairwise_cons.1 h
    have hnext : ¬ first.same next = true := fun hsame =>
      (hfirst next (List.mem_cons_self ..)).pair_ne (same_iff.1 hsame)
    rw [joinSame.go, if_neg hnext, ih hrest]

/-- Entries in strictly increasing order stay as they are. -/
theorem joinSame_sortBy_of_increasing {entries : List Entry} (h : entries.Pairwise Before) :
    joinSame (sortBy le entries) = entries := by
  rw [sortBy_of_pairwise (h.imp Before.le)]
  cases entries with
  | nil => rfl
  | cons first entries => exact joinSame_go_of_increasing h

end Entry

/-! ## One row -/

variable {text : List Char}

/-- The text of an entry is its lines with the literal exchanged, if its path is substituted. -/
theorem RowCut.spliced {row : Import × SpecLine} (c : RowCut text row)
    (subs : Dictionary String) :
    Spliced (byteLength c.before) c.lines ([row.1].filterMap (literalEdit? subs))
      ((Entry.ofSpec text subs row).comment ++ (Entry.ofSpec text subs row).line) := by
  have hedits : [row.1].filterMap (literalEdit? subs) = (literalEdit? subs row.1).toList := rfl
  rw [ofSpec_comment, c.commentAbove_eq, c.ofSpec_line, lines, hedits, literalEdit?]
  cases subs.get? row.1.path with
  | none => exact .keep
  | some path =>
    have hstart : row.1.literal.start = byteLength c.before + byteLength (c.comment ++ c.head) := by
      rw [c.literal_start, c.start_eq, c.lead_eq, byteLength_append]
      omega
    have hedit : Spliced (byteLength c.before) (c.comment ++ c.head ++ (c.literal ++ c.tail))
        [⟨row.1.literal.start, row.1.literal.stop, (quote path).toList⟩]
        (c.comment ++ c.head ++ ((quote path).toList ++ c.tail)) :=
      .edit c.literal_ne hstart c.literal_stop .keep
    simpa using hedit

/-! ## Adjacent rows -/

/-- Rows with adjacent lines, and their lines in the text. -/
structure RowLines (text : List Char) (subs : Dictionary String)
    (group : List (Import × SpecLine)) (before seg more : List Char) : Prop where
  text_eq : text = before ++ (seg ++ more)
  seg_ne : seg ≠ []
  lead_eq : ∀ first ∈ group.head?, first.2.lead = byteLength before
  stop_eq : ∀ last ∈ group.getLast?, last.2.stop = byteLength (before ++ seg)
  spliced : Spliced (byteLength before) seg ((group.map (·.1)).filterMap (literalEdit? subs))
    (['\n'].intercalate ((group.map (Entry.ofSpec text subs)).map fun e => e.comment ++ e.line))

/-- Lines that adjoin others end with a line break, behind which the others stand. -/
theorem RowCut.before_next {row next : Import × SpecLine} (c : RowCut text row)
    (hnext : Adjoins row next) {before rest : List Char} (htext : text = before ++ rest)
    (hlead : next.2.lead = byteLength before) : before = c.before ++ (c.lines ++ ['\n']) := by
  have hnl : ('\n' : Char).utf8Size = 1 := rfl
  have hplace : byteLength (c.before ++ c.lines) + 1 = byteLength before := by
    rw [← c.stop_eq_lines, ← hlead]
    exact hnext
  have hcut : c.before ++ c.lines ++ c.more = before ++ rest := by
    rw [← htext, List.append_assoc]
    exact c.text_eq_lines.symm
  cases hmore : c.more with
  | nil =>
    -- The next line would begin behind the end of the text.
    have hsize := congrArg byteLength hcut
    rw [hmore, List.append_nil, byteLength_append before] at hsize
    omega
  | cons d more =>
    obtain rfl := c.more_head d (by simp [hmore])
    have hsplit : before ++ rest = c.before ++ (c.lines ++ ['\n']) ++ more := by
      rw [← hcut, hmore]
      simp
    apply (append_inj_of_byteLength_eq hsplit _).1
    rw [← hplace]
    simp only [byteLength_append, byteLength_cons, byteLength_nil, hnl]
    omega

/-- **The entries of adjacent rows, one below the other, are the lines of the rows with the literals
exchanged.** -/
theorem exists_rowLines (subs : Dictionary String) {group : List (Import × SpecLine)}
    (hne : group ≠ []) (hadjoined : group.IsChain Adjoins)
    (hcut : ∀ row ∈ group, Nonempty (RowCut text row)) :
    ∃ before seg more, RowLines text subs group before seg more := by
  induction group with
  | nil => exact absurd rfl hne
  | cons row group ih =>
    obtain ⟨⟨c⟩, hgroup⟩ := List.forall_mem_cons.1 hcut
    have hown := c.spliced subs
    cases group with
    | nil =>
      refine ⟨c.before, c.lines, c.more, c.text_eq_lines, c.lines_ne_nil, ?_, ?_, ?_⟩
      · simpa using c.lead_eq
      · simpa using c.stop_eq_lines
      · simpa using hown
    | cons next group =>
      obtain ⟨hnext, hrest⟩ := List.isChain_cons_cons.1 hadjoined
      obtain ⟨before, seg, more, htext, hseg, hlead, hstop, hspliced⟩ :=
        ih (by simp) hrest hgroup
      obtain rfl := c.before_next hnext htext (hlead next rfl)
      refine ⟨c.before, c.lines ++ ('\n' :: seg), more, ?_, ?_, ?_, ?_, ?_⟩
      · exact htext.trans (by simp)
      · simp
      · simpa using c.lead_eq
      · intro last hlast
        rw [List.getLast?_cons_cons] at hlast
        rw [hstop last hlast]
        simp
      · -- The line break between the first row and the others is kept.
        have hplace : byteLength (c.before ++ (c.lines ++ ['\n'])) =
            byteLength c.before + byteLength c.lines + byteLength ['\n'] := by
          simp only [byteLength_append, Nat.add_assoc]
        rw [hplace] at hspliced
        have hall := hown.append (hspliced.prepend ['\n'])
        rw [← List.filterMap_append] at hall
        simpa using hall

/-! ## Groups -/

/-- **A group in order is edited in place.** Where the names and paths of a group are strictly
increasing behind the substitutions, its edit exchanges nothing but the literals of the substituted
paths. The file is the same as when the edits of these literals are made, also where the group has
no edit. -/
theorem groupEdit_of_increasing {subs : Dictionary String} {specs : List Import}
    {rows group : List (Import × SpecLine)}
    (hlocated : ∀ spec ∈ specs, Located text spec) (hrows : specLines? text specs = some rows)
    (hgroup : group ∈ groups rows)
    (hincreasing : (group.map (Entry.ofSpec text subs)).Pairwise Entry.Before) :
    (∀ e ∈ groupEdit? text subs group, Spliced e.start (slice e.start e.stop text)
      ((group.map (·.1)).filterMap (literalEdit? subs)) e.text) ∧
    applyEdits text (groupEdit? text subs group).toList =
      applyEdits text ((group.map (·.1)).filterMap (literalEdit? subs)) := by
  have hruns := runs_groups rows
  have hcut : ∀ row ∈ group, Nonempty (RowCut text row) := fun row hrow =>
    rowCut_of_specLines hlocated hrows row (mem_of_mem_groups hgroup hrow)
  obtain ⟨before, seg, more, htext, hseg, hlead, hstop, hspliced⟩ :=
    exists_rowLines subs (hruns.ne_nil group hgroup) (hruns.adjoined group hgroup) hcut
  have hgroupText : groupText text subs group = ['\n'].intercalate
      ((group.map (Entry.ofSpec text subs)).map fun e => e.comment ++ e.line) := by
    rw [groupText, Entry.joinSame_sortBy_of_increasing hincreasing]
  rw [← hgroupText] at hspliced
  cases hedit : groupEdit? text subs group with
  | none =>
    have huntouched : ¬ ((group.map (·.1)).any fun spec => subs.contains spec.path) = true := by
      rw [List.any_map]
      intro hany
      obtain ⟨e, he⟩ := exists_groupEdit text hany
      rw [hedit] at he
      simp at he
    rw [filterMap_literalEdit_eq_nil huntouched]
    exact ⟨by simp, rfl⟩
  | some e =>
    obtain ⟨-, first, hfirst, last, hlast, rfl⟩ := groupEdit?_eq_some.1 hedit
    have hstart := hlead first hfirst
    have hend : last.2.stop = first.2.lead + byteLength seg := by
      rw [hstop last hlast, hstart, byteLength_append]
    constructor
    · intro e he
      rw [Option.mem_some_iff] at he
      rw [← he, slice_eq htext hstart hend, hstart]
      exact hspliced
    · -- Both lists of edits lead from the text to the same one.
      have hwhole : Spliced 0 text [⟨first.2.lead, last.2.stop, groupText text subs group⟩]
          (before ++ (groupText text subs group ++ more)) := by
        conv => arg 2; rw [htext]
        exact .edit hseg (hstart.trans (Nat.zero_add _).symm) hend .keep
      have hliterals : Spliced 0 text ((group.map (·.1)).filterMap (literalEdit? subs))
          (before ++ (groupText text subs group ++ more)) := by
        conv => arg 2; rw [htext]
        apply Spliced.prepend
        rw [Nat.zero_add]
        exact hspliced.behind more
      rw [Option.toList_some, applyEdits_of_spliced hwhole (.refl _),
        applyEdits_of_spliced hliterals (.refl _)]

/-- A file with two imports in order on adjacent lines, which keep their order when the second one
is substituted. -/
def orderedBlock : String :=
  "package p\nimport (\n\t// first\n\t\"a\" // one\r\n\tx \"b\"\n\n\t\"d\"\n)\n"

set_option maxRecDepth 10000 in
/-- The two adjacent imports of `orderedBlock` are edited in place. -/
theorem ordered_block_in_place :
    ∃ source rows, Source.parse? orderedBlock.toList = some source ∧
      specLines? orderedBlock.toList source.imports = some rows ∧
      ∃ group ∈ groups rows, ∃ e, groupEdit? orderedBlock.toList (oneSubstitution "b" "c") group =
        some e ∧ applyEdits orderedBlock.toList [e] = applyEdits orderedBlock.toList
          ((group.map (·.1)).filterMap (literalEdit? (oneSubstitution "b" "c"))) := by
  have hcheck : (Source.parse? orderedBlock.toList).any (fun source =>
      (specLines? orderedBlock.toList source.imports).any fun rows => (groups rows).any fun group =>
        decide ((group.map (Entry.ofSpec orderedBlock.toList (oneSubstitution "b" "c"))).Pairwise
          Entry.Before) &&
        (groupEdit? orderedBlock.toList (oneSubstitution "b" "c") group).isSome) = true := by
    decide +kernel
  simp only [Option.any_eq_true, List.any_eq_true, Bool.and_eq_true, decide_eq_true_eq,
    Option.isSome_iff_exists] at hcheck
  obtain ⟨source, hsource, rows, hrows, group, hgroup, hincreasing, e, hedit⟩ := hcheck
  have hlocated : ∀ spec ∈ source.imports, Located orderedBlock.toList spec := fun spec hspec =>
    (Read.of_parse hsource spec hspec).located
  have hplace := (groupEdit_of_increasing hlocated hrows hgroup hincreasing).2
  rw [hedit, Option.toList_some] at hplace
  exact ⟨source, rows, hsource, hrows, group, hgroup, e, hedit, hplace⟩

end PinnedImports.Imports
