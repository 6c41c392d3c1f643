import PinnedImports.Proofs.Imports.Sorting

/-!
# Comments of written groups

A group that is written anew keeps the comment lines above each of its imports, also above a
duplicate that is left out: the entry that stays takes them (`SortedEntries.exists_entry`). What
stands behind an import on its line is kept with the first of the imports with its name and path,
whose line stays. Both stand in the rendered text (`render_keeps_comments`). A comment behind a later
duplicate is left out with its line.
-/

set_option autoImplicit false

namespace PinnedImports.Imports

open Text Go

/-! ## Comments in entries -/

theorem infix_intercalate {sep l : List Char} {ls : List (List Char)} (h : l ∈ ls) :
    l <:+: sep.intercalate ls := by
  induction ls with
  | nil => simp at h
  | cons first ls ih =>
    cases ls with
    | nil =>
      rw [List.mem_singleton] at h
      simp [h]
    | cons next ls =>
      rw [List.intercalate_cons_cons]
      rcases List.mem_cons.1 h with rfl | h
      · rw [List.append_assoc]
        exact (List.prefix_append _ _).isInfix
      · exact (ih h).trans (List.suffix_append _ _).isInfix

/-- What stands behind an import on its line. -/
def commentBehind (text : List Char) (row : Import × SpecLine) : List Char :=
  slice row.1.spec.stop row.2.stop text

variable {text : List Char} {subs : Dictionary String} {group : List (Import × SpecLine)}

/-- The entry for the name and the path of an import has the line of the first import of these and
the comment lines above them all. -/
theorem SortedEntries.exists_entry {entries : List Entry}
    (h : SortedEntries text subs group entries) {row : Import × SpecLine} (hrow : row ∈ group) :
    ∃ e ∈ entries, commentAbove text row <:+: e.comment ∧
      ∃ first ∈ group.find? fun other => pairBehind subs other = pairBehind subs row,
        e.line = (Entry.ofSpec text subs first).line := by
  obtain ⟨e, he, hpair⟩ := List.mem_map.1
    ((h.pairs (pairBehind subs row)).2 (List.mem_map_of_mem hrow))
  obtain ⟨first, rest, hfilter, hline, hcomment⟩ := h.same e he
  rw [hpair] at hfilter
  -- The imports with this name and path are the first one and those that gave only their comments.
  refine ⟨e, he, ?_, first, ?_, hline⟩
  · have hmem : row ∈ first :: rest := by
      rw [← hfilter]
      exact List.mem_filter.2 ⟨hrow, by simp⟩
    rw [hcomment, List.flatMap_def]
    exact List.infix_of_mem_flatten (List.mem_map_of_mem hmem)
  · rw [← List.head?_filter, hfilter]
    rfl

/-- The text of a group holds the comment lines above each of its imports, and what stands behind
the first import of each name and path. -/
theorem comments_in_groupText {row : Import × SpecLine} (hrow : row ∈ group) (c : RowCut text row)
    (hstop : row.1.literal.stop = row.1.spec.stop) :
    commentAbove text row <:+: groupText text subs group ∧
      (group.find? (fun other => pairBehind subs other = pairBehind subs row) = some row →
        commentBehind text row <:+: groupText text subs group) := by
  obtain ⟨entries, hentries, htext⟩ := exists_sortedEntries text subs group
  obtain ⟨e, he, hcomment, first, hfirst, hline⟩ := hentries.exists_entry hrow
  have hentry : e.comment ++ e.line <:+: groupText text subs group := by
    rw [htext]
    exact infix_intercalate (List.mem_map.2 ⟨e, he, rfl⟩)
  constructor
  · exact (hcomment.trans (List.prefix_append _ _).isInfix).trans hentry
  · intro hself
    rw [Option.mem_def, hself, Option.some.injEq] at hfirst
    subst hfirst
    -- The line ends with what stands behind the literal, which is the end of the specification.
    have htail : commentBehind text row = c.tail := by
      rw [commentBehind, ← hstop, c.slice_tail]
    have hend : commentBehind text row <:+ e.line := by
      rw [htail, hline, c.ofSpec_line, ← List.append_assoc]
      exact List.suffix_append _ _
    exact (hend.trans (List.suffix_append _ _)).isInfix.trans hentry

/-! ## Comments in the rendered text -/

/-- The text of a written group stands in the rendered text, if the edits of the file share no
byte. -/
theorem groupText_in_rendered {source : Source} (h : Source.parse? text = some source)
    (hdisjoint : (edits text subs source.imports).Pairwise Edit.Disjoint) {block : Nat}
    {rows : List (Import × SpecLine)}
    (hrows : specLines? text (source.imports.filter fun spec => spec.block == some block) =
      some rows) (hgroup : group ∈ writtenGroups subs rows) :
    groupText text subs group <:+: applyEdits text (edits text subs source.imports) := by
  obtain ⟨ordered, hperm, hspliced⟩ :=
    exists_spliced_of_disjoint (edits_placed h subs).1 hdisjoint
  obtain ⟨hgroup, hany⟩ := List.mem_filter.1 hgroup
  obtain ⟨e, hedit⟩ := exists_groupEdit text hany
  -- The block has a substitution, so its groups are written.
  have htouched : block ∈ touchedBlocks subs source.imports := by
    obtain ⟨row, hrow, hcontains⟩ := List.any_eq_true.1 hany
    have hmem := specLine?_of_mem hrows row (mem_of_mem_groups hgroup hrow)
    obtain ⟨hspec, hblock⟩ := List.mem_filter.1 hmem.1
    exact mem_touchedBlocks.2 ⟨row.1, hspec, hcontains, by simpa using hblock⟩
  have hmem : e ∈ edits text subs source.imports := by
    apply List.mem_append_right
    apply List.mem_flatMap.2
    refine ⟨block, htouched, ?_⟩
    rw [blockEdits, hrows]
    exact List.mem_filterMap.2 ⟨group, hgroup, hedit⟩
  -- So the text of the group is that of one of the edits that make up the result.
  obtain ⟨-, first, -, last, -, rfl⟩ := groupEdit?_eq_some.1 hedit
  exact hspliced.infix_of_mem _ (hperm.mem_iff.2 hmem)

/-- **Rendering keeps comments.** Where the edits of a file share no byte, the comment lines above
every import of a written group stand in the rendered text, also if the import is a duplicate and
left out. So does what stands behind an import on its line, if no import before it in its group has
its name and path behind the substitutions. -/
theorem render_keeps_comments {text : String} {source : Source} {subs : Dictionary String}
    (h : Source.parse? text.toList = some source)
    (hdisjoint : (edits text.toList subs source.imports).Pairwise Edit.Disjoint) {block : Nat}
    {rows group : List (Import × SpecLine)}
    (hrows : specLines? text.toList (source.imports.filter fun spec => spec.block == some block) =
      some rows) (hgroup : group ∈ writtenGroups subs rows) {row : Import × SpecLine}
    (hrow : row ∈ group) :
    commentAbove text.toList row <:+: (render text subs source.imports).toList ∧
      (group.find? (fun other => pairBehind subs other = pairBehind subs row) = some row →
        commentBehind text.toList row <:+: (render text subs source.imports).toList) := by
  have hread {spec : Import} (hspec : spec ∈ source.imports.filter fun spec =>
      spec.block == some block) : Read text.toList spec :=
    Read.of_parse h spec (List.mem_filter.1 hspec).1
  obtain ⟨hspec, hline⟩ :=
    specLine?_of_mem hrows row (mem_of_mem_groups (List.mem_filter.1 hgroup).1 hrow)
  obtain ⟨c⟩ := exists_rowCut (hread hspec).located hline
  have hrendered := groupText_in_rendered h hdisjoint hrows hgroup
  obtain ⟨habove, hbehind⟩ := comments_in_groupText hrow c (hread hspec).stop_eq
  rw [render, String.toList_ofList]
  exact ⟨habove.trans hrendered, fun hfirst => (hbehind hfirst).trans hrendered⟩

/-- A file with two imports of which the second one is a duplicate when the first one is
substituted. -/
def duplicateBlock : String :=
  "package p\nimport (\n\t\"b\" // one\n\t// two\n\t\"c\" // three\n)\n"

set_option maxRecDepth 10000 in
/-- In `duplicateBlock` the comment behind the first import is kept, and so is the comment above the
second one, which is left out. -/
theorem duplicate_block_comments :
    ∃ source, Source.parse? duplicateBlock.toList = some source ∧
      "\t// two\n".toList <:+:
        (render duplicateBlock (oneSubstitution "b" "c") source.imports).toList ∧
      " // one".toList <:+:
        (render duplicateBlock (oneSubstitution "b" "c") source.imports).toList := by
  have hcheck : (Source.parse? duplicateBlock.toList).any (fun source =>
      decide (LeadsKept duplicateBlock.toList (oneSubstitution "b" "c") source.imports) &&
        (specLines? duplicateBlock.toList
          (source.imports.filter fun spec => spec.block == some 0)).any fun rows =>
            (writtenGroups (oneSubstitution "b" "c") rows).any fun group =>
              (group.any fun row =>
                decide (commentAbove duplicateBlock.toList row = "\t// two\n".toList)) &&
              group.any fun row => decide (group.find? (fun other =>
                  pairBehind (oneSubstitution "b" "c") other =
                    pairBehind (oneSubstitution "b" "c") row) = some row) &&
                decide (commentBehind duplicateBlock.toList row = " // one".toList)) = true := by
    decide +kernel
  simp only [Option.any_eq_true, List.any_eq_true, Bool.and_eq_true, decide_eq_true_eq] at hcheck
  obtain ⟨source, hsource, hleads, rows, hrows, group, hgroup, ⟨second, hsecond, habove⟩, first,
    hfirst, hself, hbehind⟩ := hcheck
  have hdisjoint := ((edits_placed hsource (oneSubstitution "b" "c")).2.1 hleads).2
  refine ⟨source, hsource, ?_, ?_⟩
  · rw [← habove]
    exact (render_keeps_comments hsource hdisjoint hrows hgroup hsecond).1
  · rw [← hbehind]
    exact (render_keeps_comments hsource hdisjoint hrows hgroup hfirst).2 hself

set_option maxRecDepth 10000 in
/-- The comment behind the duplicate is left out. -/
example : (Source.parse? duplicateBlock.toList).map (fun source =>
    render duplicateBlock (oneSubstitution "b" "c") source.imports) =
      some "package p\nimport (\n\t// two\n\t\"c\" // one\n)\n" := by
  decide +kernel

end PinnedImports.Imports
