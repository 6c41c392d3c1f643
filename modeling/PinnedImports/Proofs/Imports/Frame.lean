import PinnedImports.Proofs.Imports.Groups

/-!
# The frame of rendering

Rendering a file exchanges ranges of its import declarations and keeps every byte outside of them.
This holds exactly where the comment lines that a group takes along lie in its declaration and
behind the group written before it (`LeadsKept`): only the lines above a group are found by their
text alone (`edits_frame`).
-/

set_option autoImplicit false

namespace PinnedImports.Imports

open Text Go

/-! ## The condition -/

/-- The groups of a block that are written anew. -/
def writtenGroups (subs : Dictionary String) (rows : List (Import × SpecLine)) :
    List (List (Import × SpecLine)) :=
  (groups rows).filter fun group => group.any fun row => subs.contains row.1.path

/-- Of two groups the second begins, with the comment lines above it, behind the first. -/
def Behind (a b : List (Import × SpecLine)) : Prop :=
  ∀ last ∈ a.getLast?, ∀ first ∈ b.head?, last.2.stop ≤ first.2.lead

/-- The comment lines above each written group begin behind the written group before it and behind
the start of the import declaration that holds the group. -/
def LeadsKept (text : List Char) (subs : Dictionary String) (imports : List Import) : Prop :=
  ∀ block ∈ touchedBlocks subs imports,
    ∀ rows ∈ specLines? text (imports.filter fun spec => spec.block == some block),
      (writtenGroups subs rows).Pairwise Behind ∧
        ∀ group ∈ writtenGroups subs rows, ∀ first ∈ group.head?, ∀ range ∈ importRanges text,
          range.start ≤ first.1.spec.start → first.1.spec.stop ≤ range.stop →
            range.start ≤ first.2.lead

instance : DecidableRel Behind := fun a b =>
  inferInstanceAs (Decidable (∀ last ∈ a.getLast?, ∀ first ∈ b.head?, last.2.stop ≤ first.2.lead))

instance (text : List Char) (subs : Dictionary String) (imports : List Import) :
    Decidable (LeadsKept text subs imports) :=
  inferInstanceAs (Decidable (∀ block ∈ touchedBlocks subs imports,
    ∀ rows ∈ specLines? text (imports.filter fun spec => spec.block == some block),
      (writtenGroups subs rows).Pairwise Behind ∧
        ∀ group ∈ writtenGroups subs rows, ∀ first ∈ group.head?, ∀ range ∈ importRanges text,
          range.start ≤ first.1.spec.start → first.1.spec.stop ≤ range.stop →
            range.start ≤ first.2.lead))

/-- The comment lines above groups begin behind the group before and behind byte `low`. -/
structure GroupsKept (low : Nat) (written : List (List (Import × SpecLine))) : Prop where
  behind : written.Pairwise Behind
  low_le : ∀ group ∈ written, ∀ first ∈ group.head?, low ≤ first.2.lead

/-! ## The edits of one declaration -/

variable {text : List Char} {subs : Dictionary String} {rows : List (Import × SpecLine)}

/-- An edit of whole characters that ends before byte `high`. -/
structure EditIn (text : List Char) (high : Nat) (e : Edit) : Prop where
  lt : e.start < e.stop
  start_place : IsPlace 0 text e.start
  stop_place : IsPlace 0 text e.stop
  stop_le : e.stop ≤ high

/-- The edit of a group holds the lines of its imports. -/
theorem exists_group_of_edit {low high : Nat} (hplaced : ∀ row ∈ rows, RowIn text low high row)
    (hpairwise : rows.Pairwise fun a b => a.2.stop < b.2.start) {e : Edit}
    (he : e ∈ (groups rows).filterMap (groupEdit? text subs)) :
    EditIn text high e ∧ ∃ group ∈ writtenGroups subs rows, ∃ first ∈ group.head?,
      first ∈ rows ∧ e.start = first.2.lead ∧ first.1.spec.stop ≤ e.stop := by
  obtain ⟨group, hgroup, hedit⟩ := List.mem_filterMap.1 he
  obtain ⟨hany, first, hfirst, last, hlast, rfl⟩ := groupEdit?_eq_some.1 hedit
  have hmem {row : Import × SpecLine} (hrow : row ∈ group) : row ∈ rows :=
    mem_of_mem_groups hgroup hrow
  have hgrouped : group.Pairwise fun a b => a.2.stop < b.2.start := by
    rw [← flatten_groups rows] at hpairwise
    exact (List.pairwise_flatten.1 hpairwise).1 group hgroup
  have hfirst' := List.mem_of_mem_head? hfirst
  have hlast' := List.mem_of_mem_getLast? hlast
  have hpos (row : Import × SpecLine) (hrow : row ∈ group) : row.2.start < row.2.stop := by
    have hin := hplaced row (hmem hrow)
    exact hin.start_le.trans_lt (hin.spec_lt.trans_le hin.stop_le)
  have hin := hplaced first (hmem hfirst')
  have hle := (rows_between hgrouped hpos hfirst hlast first hfirst').2
  refine ⟨⟨?_, hin.lead_place, (hplaced last (hmem hlast')).stop_place,
    Nat.le_of_lt (hplaced last (hmem hlast')).stop_lt⟩, group, ?_, first, hfirst, hmem hfirst',
    rfl, hin.stop_le.trans hle⟩
  · have hlt := hpos first hfirst'
    exact hin.lead_le.trans_lt (hlt.trans_le hle)
  · exact List.mem_filter.2 ⟨hgroup, hany⟩

/-- The edits of groups stand one behind the other where the groups do. -/
theorem pairwise_groupEdits :
    ((groups rows).filterMap (groupEdit? text subs)).Pairwise (fun a b => a.stop ≤ b.start) ↔
      (writtenGroups subs rows).Pairwise Behind := by
  rw [List.pairwise_filterMap, writtenGroups, List.pairwise_filter]
  refine List.Pairwise.iff fun {a b} => ⟨fun h hany hany' last hlast first hfirst => ?_, ?_⟩
  · obtain ⟨first', hfirst'⟩ : ∃ first', first' ∈ a.head? := by
      cases a with
      | nil => simp at hlast
      | cons row => exact ⟨row, rfl⟩
    obtain ⟨last', hlast'⟩ : ∃ last', last' ∈ b.getLast? := by
      cases b with
      | nil => simp at hfirst
      | cons row rest => exact ⟨_, List.getLast?_eq_getLast_of_ne_nil (List.cons_ne_nil row rest)⟩
    exact h _ (groupEdit?_eq_some.2 ⟨hany, first', hfirst', last, hlast, rfl⟩) _
      (groupEdit?_eq_some.2 ⟨hany', first, hfirst, last', hlast', rfl⟩)
  · intro h e he f hf
    obtain ⟨hany, first', -, last, hlast, rfl⟩ := groupEdit?_eq_some.1 he
    obtain ⟨hany', first, hfirst, last', -, rfl⟩ := groupEdit?_eq_some.1 hf
    exact h hany hany' last hlast first hfirst

/-- Whether or not comment lines reach out of their place, each edit of a group ends behind the start
of those before it. -/
theorem groupEdits_ordered {low high : Nat} (hplaced : ∀ row ∈ rows, RowIn text low high row)
    (hpairwise : rows.Pairwise fun a b => a.2.stop < b.2.start) :
    ((groups rows).filterMap (groupEdit? text subs)).Pairwise fun a b => a.start < b.stop := by
  have hmem {group : List (Import × SpecLine)} (hgroup : group ∈ groups rows)
      {row : Import × SpecLine} (hrow : row ∈ group) : RowIn text low high row :=
    hplaced row (mem_of_mem_groups hgroup hrow)
  rw [← flatten_groups rows] at hpairwise
  rw [List.pairwise_filterMap]
  refine (List.pairwise_flatten.1 hpairwise).2.imp_of_mem fun {a b} ha hb hab e he f hf => ?_
  obtain ⟨-, first, hfirst, -, -, rfl⟩ := groupEdit?_eq_some.1 he
  obtain ⟨-, -, -, last, hlast, rfl⟩ := groupEdit?_eq_some.1 hf
  have hlt := hab first (List.mem_of_mem_head? hfirst) last (List.mem_of_mem_getLast? hlast)
  have hin := hmem ha (List.mem_of_mem_head? hfirst)
  have hin' := hmem hb (List.mem_of_mem_getLast? hlast)
  have hle := hin.lead_le
  have hspec := hin.start_le
  have hpos := hin.spec_lt
  have hstop := hin.stop_le
  have hspec' := hin'.start_le
  have hpos' := hin'.spec_lt
  have hstop' := hin'.stop_le
  simp only
  omega

/-- What is true of the edits of every import declaration. -/
structure DeclEdits (text : List Char) (range : Span) (es : List Edit) : Prop where
  editIn : ∀ e ∈ es, EditIn text range.stop e
  start_lt : ∀ e ∈ es, range.start < e.stop
  ordered : es.Pairwise fun a b => a.start < b.stop

/-- The edits of a declaration lie in it and share no byte. -/
structure EditsKept (range : Span) (es : List Edit) : Prop where
  behind : es.Pairwise fun a b => a.stop ≤ b.start
  start_le : ∀ e ∈ es, range.start ≤ e.start

theorem Spliced.declEdits {before chars after result : List Char} {range : Span} {es : List Edit}
    (htext : text = before ++ (chars ++ after)) (hstart : range.start = byteLength before)
    (hstop : range.stop = byteLength before + byteLength chars)
    (h : Spliced (byteLength before) chars es result) :
    DeclEdits text range es ∧ EditsKept range es := by
  have hbounds := h.bounds
  have hplace {n : Nat} (hn : IsPlace (byteLength before) chars n) : IsPlace 0 text n := by
    obtain ⟨a, b, rfl, rfl⟩ := hn
    exact ⟨before ++ a, b ++ after, by rw [htext]; simp, by rw [byteLength_append, Nat.zero_add]⟩
  refine ⟨⟨fun e he => ?_, fun e he => ?_, ?_⟩, ⟨h.pairwise, fun e he => ?_⟩⟩
  · obtain ⟨hstart', hstop'⟩ := h.places e he
    exact ⟨(hbounds e he).2.1, hplace hstart', hplace hstop', hstop ▸ (hbounds e he).2.2⟩
  · have hlt := hbounds e he
    omega
  · refine h.pairwise.imp_of_mem fun {a b} ha hb hab => ?_
    have hlt := (hbounds b hb).2.1
    have hlt' := (hbounds a ha).2.1
    omega
  · rw [hstart]
    exact (hbounds e he).1

/-- The edits of a declaration are those of its literals, or those of its groups where its imports
stand on lines of their own. -/
theorem Declared.edits_cases (text : List Char) (subs : Dictionary String) (d : Declared) :
    (d.edits text subs = d.imports.filterMap (literalEdit? subs) ∧
      ∀ block, d.block = some block → (d.imports.any fun spec => subs.contains spec.path) = true →
        specLines? text d.imports = none) ∨
      ∃ block rows, d.block = some block ∧
        (d.imports.any fun spec => subs.contains spec.path) = true ∧
          specLines? text d.imports = some rows ∧
            d.edits text subs = (groups rows).filterMap (groupEdit? text subs) := by
  cases hblock : d.block with
  | none => exact .inl ⟨by rw [Declared.edits, hblock], by simp⟩
  | some block =>
    by_cases hany : (d.imports.any fun spec => subs.contains spec.path) = true
    · cases hrows : specLines? text d.imports with
      | none =>
        refine .inl ⟨?_, fun _ _ _ => rfl⟩
        simp only [Declared.edits, hblock, hany, if_true, blockEdits, hrows]
      | some rows =>
        refine .inr ⟨block, rows, rfl, hany, rfl, ?_⟩
        simp only [Declared.edits, hblock, hany, if_true, blockEdits, hrows]
    · refine .inl ⟨?_, fun _ _ hany' => absurd hany' hany⟩
      simp only [Declared.edits, hblock, hany, if_false, Bool.false_eq_true,
        filterMap_literalEdit_eq_nil hany]

/-- Above the groups of a declaration that are written anew the comment lines lie in their place. -/
def Declared.LeadsKept (text : List Char) (subs : Dictionary String) (range : Span)
    (d : Declared) : Prop :=
  ∀ block, d.block = some block → (d.imports.any fun spec => subs.contains spec.path) = true →
    ∀ rows, specLines? text d.imports = some rows →
      GroupsKept range.start (writtenGroups subs rows)

/-- **The edits of a declaration lie in it and share no byte exactly where the comment lines above
its groups lie in their place.** -/
theorem Found.edits {range : Span} {d : Declared} (h : Found (byteLength text) text range d) :
    DeclEdits text range (d.edits text subs) ∧
      (d.LeadsKept text subs range ↔ EditsKept range (d.edits text subs)) := by
  rcases d.edits_cases text subs with ⟨hedits, hnone⟩ | ⟨block, rows, hblock, hany, hrows, hedits⟩
  · have hsize : byteLength text =
        byteLength h.before + byteLength h.chars + byteLength h.after := by
      refine (congrArg byteLength h.text_eq).trans ?_
      rw [byteLength_append, byteLength_append, Nat.add_assoc]
    obtain ⟨result, hspliced, -⟩ := exists_spliced_decl subs d.block h.declText hsize
    rw [← h.imports_eq, ← hedits] at hspliced
    obtain ⟨hdecl, hkept⟩ := Spliced.declEdits h.text_eq h.start_eq h.stop_eq hspliced
    refine ⟨hdecl, fun _ => hkept, fun _ block hblock hany rows hrows => ?_⟩
    rw [hnone block hblock hany] at hrows
    simp at hrows
  · obtain ⟨hplaced, hpairwise⟩ := h.rows hblock hrows
    rw [hedits]
    refine ⟨⟨fun e he => (exists_group_of_edit hplaced hpairwise he).1, fun e he => ?_,
      groupEdits_ordered hplaced hpairwise⟩, fun hkept => ?_, fun hkept => ?_⟩
    · obtain ⟨-, -, -, first, -, hfirst, -, hle⟩ := exists_group_of_edit hplaced hpairwise he
      have hin := hplaced first hfirst
      have hlow := hin.low_le
      have hstart := hin.start_le
      have hlt := hin.spec_lt
      omega
    · obtain ⟨hbehind, hlow⟩ := hkept block hblock hany rows hrows
      refine ⟨pairwise_groupEdits.2 hbehind, fun e he => ?_⟩
      obtain ⟨-, group, hgroup, first, hfirst, -, hstart, -⟩ :=
        exists_group_of_edit hplaced hpairwise he
      rw [hstart]
      exact hlow group hgroup first hfirst
    · intro block' _ _ rows' hrows'
      rw [hrows, Option.some.injEq] at hrows'
      subst hrows'
      refine ⟨pairwise_groupEdits.1 hkept.behind, fun group hgroup first hfirst => ?_⟩
      obtain ⟨hgroup, hwritten⟩ := List.mem_filter.1 hgroup
      obtain ⟨last, hlast⟩ : ∃ last, last ∈ group.getLast? := by
        cases group with
        | nil => simp at hfirst
        | cons row rest => exact ⟨_, List.getLast?_eq_getLast_of_ne_nil (List.cons_ne_nil row rest)⟩
      exact hkept.start_le _ (List.mem_filterMap.2 ⟨group, hgroup,
        groupEdit?_eq_some.2 ⟨hwritten, first, hfirst, last, hlast, rfl⟩⟩)

/-! ## The edits of a file -/

variable {size : Nat} {before : List Char} {ds : List (Span × Declared)}

/-- The range of a declaration is not empty. -/
theorem Found.lt {range : Span} {d : Declared} (h : Found size text range d) :
    range.start < range.stop := by
  have hpos : 0 < byteLength h.chars := byteLength_pos h.declText.ne_nil
  rw [h.start_eq, h.stop_eq]
  omega

theorem Found.places {range : Span} {d : Declared} (h : Found size text range d) :
    IsPlace 0 text range.start ∧ IsPlace 0 text range.stop := by
  refine ⟨⟨h.before, h.chars ++ h.after, h.text_eq, ?_⟩, h.before ++ h.chars, h.after, ?_, ?_⟩
  · rw [h.start_eq, Nat.zero_add]
  · rw [List.append_assoc]
    exact h.text_eq
  · rw [h.stop_eq, byteLength_append, Nat.zero_add]

/-- Of two declarations one lies behind the other. -/
theorem Laid.apart (h : Laid size before ds text) {p q : Span × Declared} (hp : p ∈ ds)
    (hq : q ∈ ds) : p = q ∨ p.1.stop ≤ q.1.start ∨ q.1.stop ≤ p.1.start := by
  have hforward : ds.Pairwise fun p q => p = q ∨ p.1.stop ≤ q.1.start ∨ q.1.stop ≤ p.1.start :=
    h.pairwise.2.imp fun hab => .inr (.inl hab)
  have hbackward : ds.Pairwise
      (flip fun p q => p = q ∨ p.1.stop ≤ q.1.start ∨ q.1.stop ≤ p.1.start) :=
    h.pairwise.2.imp fun hab => .inr (.inr hab)
  exact List.Pairwise.forall_of_forall_of_flip (fun _ _ => .inl rfl) hforward hbackward hp hq

/-- The edits of all declarations lie in these and share no byte exactly where those of each
declaration do. -/
theorem editsKept_iff {f : Declared → List Edit} (hlaid : Laid size before ds text)
    (hdecl : ∀ p ∈ ds, DeclEdits (before ++ text) p.1 (f p.2)) :
    (∀ p ∈ ds, EditsKept p.1 (f p.2)) ↔
      (∀ e ∈ (ds.map (·.2)).flatMap f, ∃ range ∈ ds.map (·.1),
        range.start ≤ e.start ∧ e.stop ≤ range.stop) ∧
          ((ds.map (·.2)).flatMap f).Pairwise Edit.Disjoint := by
  have hmem {p : Span × Declared} (hp : p ∈ ds) : p.2 ∈ ds.map (·.2) := List.mem_map_of_mem hp
  constructor
  · intro hkept
    constructor
    · intro e he
      obtain ⟨d, hd, he⟩ := List.mem_flatMap.1 he
      obtain ⟨p, hp, rfl⟩ := List.mem_map.1 hd
      exact ⟨p.1, List.mem_map_of_mem hp, (hkept p hp).start_le e he,
        ((hdecl p hp).editIn e he).stop_le⟩
    · rw [List.pairwise_flatMap, List.pairwise_map]
      refine ⟨fun d hd => ?_, hlaid.pairwise.2.imp_of_mem fun {p q} hp hq hpq e he f' hf => ?_⟩
      · obtain ⟨p, hp, rfl⟩ := List.mem_map.1 hd
        exact (hkept p hp).behind.imp fun hab => .inl hab
      · have hstop := ((hdecl p hp).editIn e he).stop_le
        have hstart := (hkept q hq).start_le f' hf
        exact .inl (hstop.trans (hpq.trans hstart))
  · rintro ⟨hinside, hdisjoint⟩ p hp
    rw [List.pairwise_flatMap] at hdisjoint
    have hown := hdisjoint.1 p.2 (hmem hp)
    refine ⟨((hdecl p hp).ordered.and hown).imp fun {a b} hab => ?_, fun e he => ?_⟩
    · obtain ⟨hlt, hab | hba⟩ := hab
      · exact hab
      · omega
    · obtain ⟨range, hrange, hstart, hstop⟩ :=
        hinside e (List.mem_flatMap.2 ⟨p.2, hmem hp, he⟩)
      obtain ⟨q, hq, rfl⟩ := List.mem_map.1 hrange
      have hlow := (hdecl p hp).start_lt e he
      have hin := (hdecl p hp).editIn e he
      have hlt := hin.lt
      have hhigh := hin.stop_le
      rcases hlaid.apart hp hq with rfl | hpq | hqp
      · exact hstart
      · omega
      · omega

/-- The comment lines above the groups of a file lie in their place exactly where they do so in each
declaration. -/
theorem leadsKept_iff (hlaid : Laid (byteLength text) [] ds text)
    (hranges : ds.map (·.1) = importRanges text) (hnumbered : Numbered (ds.map (·.2))) :
    LeadsKept text subs ((ds.map (·.2)).flatMap (·.imports)) ↔
      ∀ p ∈ ds, p.2.LeadsKept text subs p.1 := by
  have hfound (p : Span × Declared) (hp : p ∈ ds) :
      Nonempty (Found (byteLength text) text p.1 p.2) := hlaid.found p hp
  have hmem {p : Span × Declared} (hp : p ∈ ds) : p.2 ∈ ds.map (·.2) := List.mem_map_of_mem hp
  have hin {p : Span × Declared} (hp : p ∈ ds) {block : Nat} (hblock : p.2.block = some block)
      {rows : List (Import × SpecLine)} (hrows : specLines? text p.2.imports = some rows)
      {group : List (Import × SpecLine)} (hgroup : group ∈ writtenGroups subs rows)
      {first : Import × SpecLine} (hfirst : first ∈ group.head?) :
      RowIn text p.1.start p.1.stop first := by
    obtain ⟨found⟩ := hfound p hp
    apply (found.rows hblock hrows).1
    exact mem_of_mem_groups (List.mem_filter.1 hgroup).1 (List.mem_of_mem_head? hfirst)
  constructor
  · intro hkept p hp block hblock hany rows hrows
    have hself := hnumbered.filter_block (hmem hp) hblock
    obtain ⟨hbehind, hlow⟩ := hkept block ((hnumbered.mem_touched subs (hmem hp) hblock).2 hany)
      rows (by rw [hself]; exact hrows)
    refine ⟨hbehind, fun group hgroup first hfirst => ?_⟩
    have hrow := hin hp hblock hrows hgroup hfirst
    refine hlow group hgroup first hfirst p.1 ?_ ?_ ?_
    · rw [← hranges]
      exact List.mem_map_of_mem hp
    · exact hrow.low_le.trans hrow.start_le
    · exact hrow.stop_le.trans (Nat.le_of_lt hrow.stop_lt)
  · intro hkept block htouched rows hrows
    obtain ⟨i, hi, hcontains, hib⟩ := mem_touchedBlocks.1 htouched
    obtain ⟨d, hd, hid⟩ := List.mem_flatMap.1 hi
    obtain ⟨p, hp, rfl⟩ := List.mem_map.1 hd
    have hblock : p.2.block = some block := by rw [← hnumbered.block p.2 hd i hid, hib]
    rw [hnumbered.filter_block hd hblock] at hrows
    have hany : (p.2.imports.any fun spec => subs.contains spec.path) = true :=
      List.any_eq_true.2 ⟨i, hid, hcontains⟩
    obtain ⟨hbehind, hlow⟩ := hkept p hp block hblock hany rows hrows
    refine ⟨hbehind, fun group hgroup first hfirst range hrange hstart hstop => ?_⟩
    rw [← hranges] at hrange
    obtain ⟨q, hq, rfl⟩ := List.mem_map.1 hrange
    have hrow := hin hp hblock hrows hgroup hfirst
    have hlow' := hrow.low_le
    have hspec := hrow.start_le
    have hlt := hrow.spec_lt
    have hend := hrow.stop_le
    have hhigh := hrow.stop_lt
    rcases hlaid.apart hp hq with rfl | hpq | hqp
    · exact hlow group hgroup first hfirst
    · omega
    · omega

/-- The edits of an accepted file exchange whole characters. They lie in its import declarations and
share no byte exactly where the comment lines above each written group lie in their place. -/
theorem edits_placed {text : List Char} {source : Source} (h : Source.parse? text = some source)
    (subs : Dictionary String) :
    (∀ e ∈ edits text subs source.imports,
      e.start < e.stop ∧ IsPlace 0 text e.start ∧ IsPlace 0 text e.stop) ∧
    (LeadsKept text subs source.imports ↔
      (∀ e ∈ edits text subs source.imports, ∃ range ∈ importRanges text,
        range.start ≤ e.start ∧ e.stop ≤ range.stop) ∧
      (edits text subs source.imports).Pairwise Edit.Disjoint) := by
  obtain ⟨ds, hlaid, hranges, himports, hnumbered⟩ := exists_laid h
  have hperm := hnumbered.edits_perm text subs
  have hkept := @leadsKept_iff _ subs _ hlaid hranges hnumbered
  rw [← himports] at hperm hkept
  have hfound (p : Span × Declared) (hp : p ∈ ds) :
      Nonempty (Found (byteLength text) text p.1 p.2) := hlaid.found p hp
  have hdecl (p : Span × Declared) (hp : p ∈ ds) :
      DeclEdits text p.1 (p.2.edits text subs) := by
    obtain ⟨found⟩ := hfound p hp
    exact found.edits.1
  constructor
  · intro e he
    obtain ⟨d, hd, he⟩ := List.mem_flatMap.1 (hperm.mem_iff.1 he)
    obtain ⟨p, hp, rfl⟩ := List.mem_map.1 hd
    have hin := (hdecl p hp).editIn e he
    exact ⟨hin.lt, hin.start_place, hin.stop_place⟩
  · have hsymm {a b : Edit} (h : a.Disjoint b) : b.Disjoint a := h.symm
    rw [hperm.pairwise_iff fun h => hsymm h, ← hranges]
    have hmem (e : Edit) := hperm.mem_iff (a := e)
    simp only [hmem]
    rw [← editsKept_iff hlaid hdecl, hkept]
    refine forall₂_congr fun p hp => ?_
    obtain ⟨found⟩ := hfound p hp
    exact found.edits.2

/-- **The frame of rendering.** All edits of an accepted file exchange whole characters of its text.
They lie in its import declarations and share no byte exactly where the comment lines above each
written group lie in their place. Then each edit is made where it is meant to be made, and the
rendered text is the text of the file with at most its import declarations exchanged. -/
theorem edits_frame {text : String} {source : Source}
    (h : Source.parse? text.toList = some source) (subs : Dictionary String) :
    (∀ e ∈ edits text.toList subs source.imports,
      e.start < e.stop ∧ e.stop ≤ byteLength text.toList ∧
        IsPlace 0 text.toList e.start ∧ IsPlace 0 text.toList e.stop) ∧
    (LeadsKept text.toList subs source.imports ↔
      (∀ e ∈ edits text.toList subs source.imports, ∃ range ∈ importRanges text.toList,
        range.start ≤ e.start ∧ e.stop ≤ range.stop) ∧
      (edits text.toList subs source.imports).Pairwise Edit.Disjoint) ∧
    (LeadsKept text.toList subs source.imports →
      Fits text.toList (sortBy (fun a b => b.start ≤ a.start)
        (edits text.toList subs source.imports)) ∧
      (∃ ordered, ordered.Perm (edits text.toList subs source.imports) ∧
        Spliced 0 text.toList ordered (render text subs source.imports).toList) ∧
      ∃ whole : List Edit,
        whole.map (fun e => (⟨e.start, e.stop⟩ : Span)) = importRanges text.toList ∧
          Spliced 0 text.toList whole (render text subs source.imports).toList) := by
  obtain ⟨ds, hlaid, hranges, -, -⟩ := exists_laid h
  obtain ⟨hplaces, hdisjoint⟩ := edits_placed h subs
  refine ⟨fun e he => ?_, hdisjoint, fun hleads => ?_⟩
  · obtain ⟨hlt, hstart, before, after, htext, hstop⟩ := hplaces e he
    refine ⟨hlt, ?_, hstart, before, after, htext, hstop⟩
    rw [hstop, htext, byteLength_append]
    omega
  · obtain ⟨hinside, hapart⟩ := hdisjoint.1 hleads
    obtain ⟨ordered, hordered, hspliced⟩ := exists_spliced_of_disjoint hplaces hapart
    have hrender : (render text subs source.imports).toList =
        applyEdits text.toList (edits text.toList subs source.imports) := by
      rw [render, String.toList_ofList]
    rw [hrender]
    refine ⟨fits_of_spliced hspliced hordered.symm, ⟨ordered, hordered, hspliced⟩, ?_⟩
    have hwhole : ∀ r ∈ (importRanges text.toList).map fun range => (range.start, range.stop),
        r.1 < r.2 ∧ IsPlace 0 text.toList r.1 ∧ IsPlace 0 text.toList r.2 := by
      intro r hr
      rw [← hranges, List.map_map] at hr
      obtain ⟨p, hp, rfl⟩ := List.mem_map.1 hr
      obtain ⟨found⟩ := hlaid.found p hp
      exact ⟨found.lt, found.places⟩
    have horder : ((importRanges text.toList).map fun range => (range.start, range.stop)).Pairwise
        fun a b => a.2 ≤ b.1 := by
      rw [← hranges, List.map_map, List.pairwise_map]
      exact hlaid.pairwise.2
    obtain ⟨whole, hmap, hresult⟩ := exists_spliced_ranges hspliced hwhole horder fun e he => by
      obtain ⟨range, hrange, hin⟩ := hinside e (hordered.mem_iff.1 he)
      exact ⟨_, List.mem_map_of_mem hrange, hin⟩
    refine ⟨whole, ?_, hresult⟩
    have hspans := congrArg (List.map fun r : Nat × Nat => (⟨r.1, r.2⟩ : Span)) hmap
    simpa only [List.map_map, Function.comp_def, List.map_id'] using hspans

/-- A file with a block whose first import moves behind the second one, with the comment above it. -/
def sortedBlock : String := "package p\nimport (\n\t// first\n\t\"b\"\n\t\"a\"\n)\n"

/-- The substitution of one path. -/
def oneSubstitution (path new : String) : Dictionary String := Dictionary.insert ∅ path new

set_option maxRecDepth 10000 in
/-- The comment lines of `sortedBlock` lie in their place, and so rendering keeps what is outside of
its declaration. -/
theorem sorted_block_framed :
    ∃ source, Source.parse? sortedBlock.toList = some source ∧
      LeadsKept sortedBlock.toList (oneSubstitution "b" "c") source.imports ∧
      (edits sortedBlock.toList (oneSubstitution "b" "c") source.imports).Pairwise Edit.Disjoint ∧
      ∃ whole : List Edit,
        whole.map (fun e => (⟨e.start, e.stop⟩ : Span)) = importRanges sortedBlock.toList ∧
          Spliced 0 sortedBlock.toList whole
            (render sortedBlock (oneSubstitution "b" "c") source.imports).toList := by
  have hcheck : (Source.parse? sortedBlock.toList).any (fun source =>
      decide (LeadsKept sortedBlock.toList (oneSubstitution "b" "c") source.imports)) = true := by
    decide +kernel
  rw [Option.any_eq_true] at hcheck
  obtain ⟨source, hsource, hleads⟩ := hcheck
  rw [decide_eq_true_eq] at hleads
  obtain ⟨-, hiff, hframe⟩ := edits_frame hsource (oneSubstitution "b" "c")
  exact ⟨source, hsource, hleads, (hiff.1 hleads).2, (hframe hleads).2.2⟩

set_option maxRecDepth 10000 in
/-- A line within a block comment is taken for a comment line of the import below. -/
example : (Source.parse? "package p\n/*\n// */ import (\n\"b\"\n\"a\"\n)\n".toList).any
    (fun source => decide (LeadsKept "package p\n/*\n// */ import (\n\"b\"\n\"a\"\n)\n".toList
      (oneSubstitution "b" "c") source.imports)) = false := by
  decide +kernel

end PinnedImports.Imports
