import PinnedImports.Proofs.Imports.Literals

/-!
# Places of the lines of a block

The lines of the imports of a block lie between its parentheses, one behind the other
(`Rows.placed`). Only the run of comment lines above an import may begin earlier: it is found by its
text, and a line of this text may stand within a block comment that holds other lines as well. The
groups of a block are its imports in their order (`flatten_groups`), so the same is true of them.
-/

set_option autoImplicit false

namespace PinnedImports.Imports

open Text Go

/-! ## Rows -/

/-- The lines of an import lie in the text, from byte `low` on and before byte `high`. -/
structure RowIn (text : List Char) (low high : Nat) (row : Import × SpecLine) : Prop where
  lead_le : row.2.lead ≤ row.2.start
  low_le : low ≤ row.2.start
  start_le : row.2.start ≤ row.1.spec.start
  spec_lt : row.1.spec.start < row.1.spec.stop
  stop_le : row.1.spec.stop ≤ row.2.stop
  stop_lt : row.2.stop < high
  lead_place : IsPlace 0 text row.2.lead
  stop_place : IsPlace 0 text row.2.stop

theorem RowIn.mono {text : List Char} {low low' high : Nat} {row : Import × SpecLine}
    (h : RowIn text low high row) (hle : low' ≤ low) : RowIn text low' high row :=
  { h with low_le := hle.trans h.low_le }

namespace RowText

variable {before : List Char} (r : RowText before)

theorem byteLength_chars :
    byteLength (before ++ r.chars) =
      byteLength (before ++ r.between) + byteLength (r.indent ++ (r.spec.chars ++ r.tail)) + 1 := by
  have hnl : ('\n' : Char).utf8Size = 1 := rfl
  simp only [chars, line, byteLength_append, byteLength_cons, byteLength_nil, hnl]
  omega

theorem byteLength_above :
    byteLength (unlines r.above) + byteLength (unlines r.comment) =
      byteLength (before ++ r.between) := by
  rw [← byteLength_append, ← r.above_eq]

theorem rowIn {text rest : List Char} (htext : text = before ++ (r.chars ++ rest))
    (block : Option Nat) :
    RowIn text (byteLength before) (byteLength (before ++ r.chars))
      (r.imported block, r.specLine) := by
  obtain ⟨c, cs, hchars, -⟩ := r.spec.chars_start
  have habove := r.byteLength_above
  have hspec : 0 < byteLength r.spec.chars := byteLength_pos (by simp [hchars])
  have hlow : byteLength before ≤ byteLength (before ++ r.between) := by
    rw [byteLength_append]
    omega
  refine ⟨?_, hlow, ?_, ?_, ?_, ?_, ?_, ?_⟩
  · simp only [specLine]
    omega
  · simp only [specLine, imported, importAt]
    omega
  · simp only [imported, importAt]
    omega
  · simp only [specLine, imported, importAt, byteLength_append]
    omega
  · rw [byteLength_chars]
    simp only [specLine]
    omega
  · refine ⟨unlines r.above, unlines r.comment ++ (r.line ++ rest), ?_, (Nat.zero_add _).symm⟩
    rw [htext, chars, List.append_assoc, ← List.append_assoc before, r.above_eq, List.append_assoc]
  · refine ⟨before ++ r.between ++ (r.indent ++ (r.spec.chars ++ r.tail)), '\n' :: rest, ?_, ?_⟩
    · rw [htext, chars, line]
      simp
    · rw [byteLength_append, Nat.zero_add]
      rfl

end RowText

/-- **The lines of the imports of a block lie in the block, one behind the other.** -/
theorem Rows.placed {after : Nat} {block : Option Nat} {before cs : List Char}
    {rows : List (Import × SpecLine)} (h : Rows after block before rows cs) :
    ∀ {text more : List Char}, text = before ++ (cs ++ more) →
      (∀ row ∈ rows, RowIn text (byteLength before) (byteLength (before ++ cs)) row) ∧
        rows.Pairwise fun a b => a.2.stop < b.2.start := by
  induction h with
  | done => simp
  | @row before rest specs rows r _ _ _ ih =>
    intro text more htext
    have hchars : text = before ++ (r.chars ++ (rest ++ more)) := by
      rw [htext, List.append_assoc]
    have hfirst := r.rowIn hchars block
    have hrest : text = before ++ r.chars ++ (rest ++ more) := by
      rw [htext]
      simp
    obtain ⟨hrows, hpairwise⟩ := ih hrest
    have hend : byteLength (before ++ r.chars) ≤ byteLength (before ++ (r.chars ++ rest)) := by
      simp only [byteLength_append]
      omega
    refine ⟨fun row hrow => ?_, List.pairwise_cons.2 ⟨fun row hrow => ?_, hpairwise⟩⟩
    · rcases List.mem_cons.1 hrow with rfl | hrow
      · exact { hfirst with stop_lt := hfirst.stop_lt.trans_le hend }
      · rw [← List.append_assoc]
        refine (hrows row hrow).mono ?_
        rw [byteLength_append]
        omega
    · have hlt := hfirst.stop_lt
      have hle := (hrows row hrow).low_le
      omega

/-- The inside of the parentheses of a declaration is cut at the lines of its imports. -/
theorem exists_rows {text before after gap inside : List Char} {specs : List ImportSpec}
    {block : Nat} {rows : List (Import × SpecLine)}
    (htext : text = before ++ (importWord ++ (gap ++ '(' :: (inside ++ [')'])) ++ after))
    (hlines : Lines false (byteLength after + 1) specs inside)
    (hrows : specLines? text (importsOf (byteLength text) (some block) specs) = some rows) :
    Rows (byteLength after + 1) (some block) (before ++ (importWord ++ (gap ++ ['('])))
      rows inside := by
  have hparen : byteLength (')' :: after) = byteLength after + 1 := by
    have hsize : (')' : Char).utf8Size = 1 := rfl
    rw [byteLength_cons, hsize, Nat.add_comm]
  have hcut : text =
      before ++ (importWord ++ (gap ++ ['('])) ++ ([] ++ (inside ++ ')' :: after)) := by
    rw [htext]
    simp
  have hanchored : Anchored (before ++ (importWord ++ (gap ++ ['('])) ++ []) :=
    ⟨before ++ (importWord ++ gap), '(', by simp, .inr (by decide)⟩
  have hempty : Lines true (byteLength (inside ++ ')' :: after)) [] [] := .done .nil
  rw [hcut] at hrows
  rw [← hparen] at hlines ⊢
  exact rows_of_lines hlines hempty (by intro v hv; simp at hv) hanchored rfl hrows

/-- The lines of the imports of a declaration lie in it, one behind the other. -/
theorem Found.rows {text : List Char} {range : Span} {d : Declared} {block : Nat}
    {rows : List (Import × SpecLine)} (h : Found (byteLength text) text range d)
    (hblock : d.block = some block) (hrows : specLines? text d.imports = some rows) :
    (∀ row ∈ rows, RowIn text range.start range.stop row) ∧
      rows.Pairwise fun a b => a.2.stop < b.2.start := by
  obtain ⟨before, chars, after, item, htext, hdecl, hstart, hstop, himports, hparentheses⟩ := h
  obtain ⟨specs, rfl⟩ := hparentheses block hblock
  rw [himports, hblock] at hrows
  cases hdecl with
  | @block gap inside _ hgap hlines =>
    have hcut : text = before ++ (importWord ++ (gap ++ ['('])) ++ (inside ++ ')' :: after) := by
      rw [htext]
      simp
    have hsize : (')' : Char).utf8Size = 1 := rfl
    obtain ⟨hplaced, hpairwise⟩ := (exists_rows htext hlines hrows).placed hcut
    -- The parentheses belong to the declaration, so there is room on both sides of the rows.
    refine ⟨fun row hrow => ?_, hpairwise⟩
    have hrow := hplaced row hrow
    refine { hrow with low_le := ?_, stop_lt := ?_ }
    · have hle := hrow.low_le
      rw [byteLength_append] at hle
      omega
    · have hlt := hrow.stop_lt
      rw [hstop]
      simp only [byteLength_append, byteLength_cons, byteLength_nil, hsize] at hlt ⊢
      omega

/-! ## Groups -/

/-- The groups of a block are its imports in their order. -/
theorem flatten_groups (rows : List (Import × SpecLine)) : (groups rows).flatten = rows := by
  induction rows with
  | nil => rfl
  | cons row rows ih =>
    rw [groups]
    split
    · rename_i next group others hgroups
      rw [hgroups, List.flatten_cons] at ih
      split
      · rw [List.flatten_cons, List.cons_append, ih]
      · rw [List.flatten_cons, List.flatten_cons, ih]
        rfl
    · rw [List.flatten_cons, ih]
      rfl

theorem mem_of_mem_groups {rows group : List (Import × SpecLine)} (hgroup : group ∈ groups rows)
    {row : Import × SpecLine} (hrow : row ∈ group) : row ∈ rows := by
  rw [← flatten_groups rows]
  exact List.mem_flatten.2 ⟨group, hgroup, hrow⟩

/-- The edit of a group goes from the comment above its first import to the end of its last line. -/
theorem groupEdit?_eq_some {text : List Char} {subs : Dictionary String}
    {group : List (Import × SpecLine)} {e : Edit} :
    groupEdit? text subs group = some e ↔
      (group.any fun row => subs.contains row.1.path) = true ∧
        ∃ first ∈ group.head?, ∃ last ∈ group.getLast?,
          e = ⟨first.2.lead, last.2.stop, groupText text subs group⟩ := by
  cases group with
  | nil => simp [groupEdit?]
  | cons row rows =>
    rw [groupEdit?]
    by_cases hany : ((row :: rows).any fun row => subs.contains row.1.path) = true
    · rw [if_pos hany, Option.some.injEq]
      have hlast := List.getLast?_eq_getLast_of_ne_nil (List.cons_ne_nil row rows)
      simp only [hany, true_and, List.head?_cons, Option.mem_some_iff, exists_eq_left', hlast]
      exact eq_comm
    · rw [if_neg hany]
      simp [hany]

/-- Rows one behind the other lie between the first and the last of them. -/
theorem rows_between {group : List (Import × SpecLine)} {first last : Import × SpecLine}
    (hpairwise : group.Pairwise fun a b => a.2.stop < b.2.start)
    (hstart : ∀ row ∈ group, row.2.start < row.2.stop) (hfirst : first ∈ group.head?)
    (hlast : last ∈ group.getLast?) :
    ∀ row ∈ group, first.2.start ≤ row.2.start ∧ row.2.stop ≤ last.2.stop := by
  intro row hrow
  constructor
  · cases group with
    | nil => simp at hrow
    | cons head rest =>
      rw [List.head?_cons, Option.mem_some_iff] at hfirst
      subst hfirst
      rcases List.mem_cons.1 hrow with rfl | hrow
      · exact Nat.le_refl _
      · have hlt := (List.pairwise_cons.1 hpairwise).1 row hrow
        have hself := hstart head (List.mem_cons_self ..)
        omega
  · -- The last row is taken off at the end of the list.
    rcases group.eq_nil_or_concat with rfl | ⟨init, d, rfl⟩
    · simp at hrow
    · rw [List.concat_eq_append] at hpairwise hlast hrow hstart
      rw [List.getLast?_concat, Option.mem_some_iff] at hlast
      subst hlast
      rcases List.mem_append.1 hrow with hrow | hrow
      · have hlt := (List.pairwise_append.1 hpairwise).2.2 row hrow d (List.mem_singleton.2 rfl)
        have hself := hstart d (by simp)
        omega
      · rw [List.mem_singleton.1 hrow]

end PinnedImports.Imports
