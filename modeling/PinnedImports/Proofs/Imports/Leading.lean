import PinnedImports.Proofs.Go.Rereading
import PinnedImports.Proofs.Imports.Frame

/-!
# Substituted imports before all code

A declaration in which no path is substituted is not edited (`itemEdits_untouched`), so it may stand
anywhere in a file. The others change, and an item of code in front of one would be read with a look at
what changes. `LeadingImports` asks of a file that its substituted imports stand before its code; then
no item of code stands in front of a declaration that is edited (`importsLead_of_leading`).
-/

set_option autoImplicit false

namespace PinnedImports.Imports

open Text Go

variable {subs : Dictionary String}

/-! ## Items in which a path is substituted -/

/-- The item imports a path that is substituted. -/
def Touches (subs : Dictionary String) (item : Item) : Prop :=
  ∃ p ∈ pairsOf (specsOf item), subs.contains p.2 = true

theorem not_touches_of_specsOf {item : Item} (h : specsOf item = []) : ¬ Touches subs item := by
  rintro ⟨p, hp, -⟩
  rw [h] at hp
  simp [pairsOf] at hp

theorem substituted_of_not_contains {p : Option String × String} (h : ¬ subs.contains p.2 = true) :
    substituted subs p = p := by
  have hnone : subs.get? p.2 = none := by
    rw [Option.eq_none_iff_forall_not_mem]
    exact fun new hnew => h (Dictionary.contains_iff.2 ⟨new, hnew⟩)
  rw [substituted, hnone, Option.getD_none]

/-- An item in which no path is substituted imports the same behind the substitutions. -/
theorem map_substituted_untouched {item : Item} (h : ¬ Touches subs item) :
    (pairsOf (specsOf item)).map (substituted subs) = pairsOf (specsOf item) := by
  refine (List.map_congr_left fun p hp => ?_).trans (List.map_id _)
  exact substituted_of_not_contains fun hcontains => h ⟨p, hp, hcontains⟩

/-- The edits of the import declarations among items. -/
def itemEdits (whole : List Char) (subs : Dictionary String) (block : Nat) (items : List Item) :
    List Edit :=
  (declared (byteLength whole) block items).flatMap (·.edits whole subs)

theorem edits_untouched {d : Declared}
    (h : ¬(d.imports.any fun i => subs.contains i.path) = true) (whole : List Char) :
    d.edits whole subs = [] := by
  rw [Declared.edits]
  cases d.block with
  | none => exact filterMap_literalEdit_eq_nil h
  | some block => exact if_neg h

/-- An item in which no path is substituted is a declaration of which the same holds. -/
theorem any_importsOf_untouched {item : Item} (h : ¬ Touches subs item) (size : Nat)
    (number : Option Nat) :
    ¬((importsOf size number (specsOf item)).any fun i => subs.contains i.path) = true := by
  rw [List.any_eq_true]
  rintro ⟨i, hi, hcontains⟩
  refine h ⟨(i.name, i.path), ?_, hcontains⟩
  rw [← pairsOf_importsOf size number]
  exact List.mem_map_of_mem hi

/-- A declaration that is edited imports a path that is substituted. -/
theorem exists_import_of_edit {whole : List Char} {d : Declared} {e : Edit}
    (h : e ∈ d.edits whole subs) : ∃ i ∈ d.imports, subs.contains i.path = true := by
  by_contra hnone
  rw [← List.any_eq_true] at hnone
  rw [edits_untouched hnone] at h
  simp at h

/-- **Items in which no path is substituted are not edited.** -/
theorem itemEdits_untouched (whole : List Char) {items : List Item} :
    (∀ item ∈ items, ¬ Touches subs item) → ∀ block, itemEdits whole subs block items = [] := by
  induction items with
  | nil => exact fun _ _ => rfl
  | cons item items ih =>
    intro h block
    have hrest := ih fun other hother => h other (List.mem_cons_of_mem _ hother)
    have hitem := any_importsOf_untouched (h item (List.mem_cons_self ..)) (byteLength whole)
    -- The number of a block only matters to the items behind it, so it is left open in the induction.
    cases item with
    | package name => exact hrest block
    | code tree => exact hrest block
    | imported spec =>
      rw [itemEdits, declared, List.flatMap_cons, edits_untouched (hitem none), List.nil_append]
      exact hrest block
    | importedBlock specs =>
      rw [itemEdits, declared, List.flatMap_cons, edits_untouched (hitem (some block)),
        List.nil_append]
      exact hrest (block + 1)

/-! ## No code in front of them -/

/-- No item in which a path is substituted stands behind an item of code. -/
def ImportsLead (subs : Dictionary String) : List Item → Prop
  | [] => True
  | .code _ :: rest => ∀ item ∈ rest, ¬ Touches subs item
  | _ :: rest => ImportsLead subs rest

theorem importsLead_tail {after : Nat} {item : Item} {cs : List Char} {items : List Item}
    (h : DeclText after item cs) (hlead : ImportsLead subs (item :: items)) :
    ImportsLead subs items := by
  rcases h.item with ⟨spec, rfl⟩ | ⟨specs, rfl⟩
  · exact hlead
  · exact hlead

/-- Behind an item of code, and there itself, no path is substituted. -/
theorem untouched_of_code {tree : Tree} {items : List Item}
    (hlead : ImportsLead subs (.code tree :: items)) :
    ∀ item ∈ Item.code tree :: items, ¬ Touches subs item := by
  intro item hitem
  rcases List.mem_cons.1 hitem with rfl | hitem
  · exact not_touches_of_specsOf rfl
  · exact hlead item hitem

/-- Where nothing but blanks is left, no path is substituted any more: what is read next is a statement
without characters. -/
theorem untouched_of_ended {text last : List Char} {found : List (Item × Option Span)}
    (h : Parser.Repeats (Grammar.placedItem Grammar.rules) text found last)
    (hgap : afterGap false text = []) (hlead : ImportsLead subs (found.map (·.1))) :
    ∀ item ∈ found.map (·.1), ¬ Touches subs item := by
  have hword : word? (afterGap false text) = none := by
    rw [hgap]
    rfl
  cases h with
  | stop => simp
  | @next _ rest _ r found hread _ =>
    obtain ⟨item, _ | span⟩ := r
    · obtain ⟨-, hitem⟩ := Grammar.not_import_of_item hread
      obtain ⟨tree, rfl, -⟩ :=
        Grammar.code_of_item (by rw [hword]; simp) (by rw [hword]; simp) hitem
      exact untouched_of_code hlead
    · -- A declaration would begin with a word.
      obtain ⟨blanks, cs, after, hblanks, rfl, hdecl, -⟩ := Grammar.exists_declText_of_item hread
      rw [hdecl.afterGap hblanks, hdecl.word] at hword
      simp at hword

/-! ## Places in the text -/

/-- The imports of a file whose paths are substituted stand before its code. -/
def LeadingImports (subs : Dictionary String) (source : Source) : Prop :=
  ∀ i ∈ source.imports, subs.contains i.path = true → ∀ tree ∈ source.code, i.spec.stop ≤ tree.start

instance (subs : Dictionary String) (source : Source) : Decidable (LeadingImports subs source) :=
  inferInstanceAs (Decidable (∀ i ∈ source.imports, subs.contains i.path = true →
    ∀ tree ∈ source.code, i.spec.stop ≤ tree.start))

set_option maxRecDepth 10000 in
/-- An import that keeps its path may stand behind code, one that is substituted may not. -/
example : (Source.parse? "package p\nimport \"b\"\nvar x = 1\nimport \"c\"\n".toList).any
    (fun source => decide (LeadingImports (oneSubstitution "b" "d") source ∧
      ¬ LeadingImports (oneSubstitution "c" "d") source)) = true := by
  decide +kernel

theorem Lines.stop_lt {whole : Bool} {after : Nat} {specs : List ImportSpec} {cs : List Char}
    (h : Lines whole after specs cs) : ∀ spec ∈ specs, spec.spec.stop < byteLength cs + after := by
  have hpos (s : SpecText) : 0 < byteLength s.chars := by
    obtain ⟨c, cs, hchars, -⟩ := s.chars_start
    exact byteLength_pos (by simp [hchars])
  induction h with
  | done => simp
  | @last gap blanks s _ _ _ =>
    intro spec hspec
    obtain rfl := List.mem_singleton.1 hspec
    have hs := hpos s
    simp only [SpecText.placed, byteLength_append]
    omega
  | @line gap closing cs s specs _ _ _ ih =>
    intro spec hspec
    have hs := hpos s
    rcases List.mem_cons.1 hspec with rfl | hspec
    · simp only [SpecText.placed, byteLength_append]
      omega
    · have hlt := ih spec hspec
      simp only [byteLength_append]
      omega

/-- The specifications of a declaration end in it. -/
theorem stop_lt_of_declText {after : Nat} {item : Item} {cs : List Char}
    (h : DeclText after item cs) : ∀ spec ∈ specsOf item, spec.spec.stop < byteLength cs + after := by
  have hpos := byteLength_pos h.ne_nil
  cases h with
  | @single gap s _ _ =>
    intro spec hspec
    obtain rfl := List.mem_singleton.1 hspec
    simp only [SpecText.placed]
    omega
  | @block gap cs specs _ hlines =>
    intro spec hspec
    have hlt := Lines.stop_lt hlines spec hspec
    have hsize : (')' : Char).utf8Size = 1 := rfl
    simp only [byteLength_append, byteLength_cons, byteLength_nil, hsize]
    omega

/-- The specifications of items end in the text that the items are read from. -/
theorem stop_lt_of_repeats {text last : List Char} {found : List (Item × Option Span)}
    (h : Parser.Repeats (Grammar.placedItem Grammar.rules) text found last) :
    ∀ item ∈ found.map (·.1), ∀ spec ∈ specsOf item, spec.spec.stop < byteLength text := by
  induction h with
  | stop => simp
  | @next text rest last r found hread _ ih =>
    have hle := Parser.byteLength_le_of_suffix (Parser.suffix_of_read hread)
    intro item hitem spec hspec
    rcases List.mem_cons.1 hitem with rfl | hitem
    · obtain ⟨item, _ | span⟩ := r
      · rcases Grammar.package_or_code hread with ⟨name, -, -, rfl, -⟩ | ⟨tree, rfl, -⟩
        · simp [specsOf] at hspec
        · simp [specsOf] at hspec
      · obtain ⟨blanks, cs, after, -, rfl, hdecl, -⟩ := Grammar.exists_declText_of_item hread
        have hlt := stop_lt_of_declText hdecl spec hspec
        simp only [byteLength_append]
        omega
    · exact (ih item hitem spec hspec).trans_le hle

/-- Where a path of an item is substituted, it is that of an import of the file. -/
theorem exists_import_of_touches {item : Item} (h : Touches subs item) (size : Nat)
    {items : List Item} (hitem : item ∈ items) :
    ∀ block, ∃ i ∈ Item.imports size block items, subs.contains i.path = true ∧
      ∃ spec ∈ specsOf item, i.spec = spec.spec.turned size := by
  -- Whatever the number of the declaration is, it imports the path.
  have hown (number : Option Nat) : ∃ i ∈ importsOf size number (specsOf item),
      subs.contains i.path = true ∧ ∃ spec ∈ specsOf item, i.spec = spec.spec.turned size := by
    obtain ⟨p, hp, hcontains⟩ := h
    rw [← pairsOf_importsOf size number] at hp
    obtain ⟨i, hi, rfl⟩ := List.mem_map.1 hp
    obtain ⟨spec, hspec, himport⟩ := List.mem_filterMap.1 hi
    rw [ImportSpec.import?, Option.map_eq_some_iff] at himport
    obtain ⟨path, -, rfl⟩ := himport
    exact ⟨_, hi, hcontains, spec, hspec, rfl⟩
  induction items with
  | nil => simp at hitem
  | cons other items ih =>
    intro block
    rw [flatMap_declared]
    rcases List.mem_cons.1 hitem with rfl | hitem
    · cases item with
      | package name => exact absurd h (not_touches_of_specsOf rfl)
      | code tree => exact absurd h (not_touches_of_specsOf rfl)
      | imported spec =>
        obtain ⟨i, hi, hrest⟩ := hown none
        exact ⟨i, List.mem_append_left _ hi, hrest⟩
      | importedBlock specs =>
        obtain ⟨i, hi, hrest⟩ := hown (some block)
        exact ⟨i, List.mem_append_left _ hi, hrest⟩
    · have hlater (n : Nat) := ih hitem n
      simp only [flatMap_declared] at hlater
      cases other with
      | package name => exact hlater block
      | code tree => exact hlater block
      | imported spec =>
        obtain ⟨i, hi, hrest⟩ := hlater block
        exact ⟨i, List.mem_append_right _ hi, hrest⟩
      | importedBlock specs =>
        obtain ⟨i, hi, hrest⟩ := hlater (block + 1)
        exact ⟨i, List.mem_append_right _ hi, hrest⟩

theorem importsLead_of_places {size : Nat} {text last : List Char}
    {found : List (Item × Option Span)}
    (h : Parser.Repeats (Grammar.placedItem Grammar.rules) text found last)
    (hsize : byteLength text ≤ size)
    (hplaces : ∀ item ∈ found.map (·.1), Touches subs item → ∃ spec ∈ specsOf item,
      ∀ tree, .code tree ∈ found.map (·.1) →
        (spec.spec.turned size).stop ≤ (tree.turned size).start) :
    ImportsLead subs (found.map (·.1)) := by
  induction h with
  | stop => trivial
  | @next text rest last r found hread hrest ih =>
    have hle := Parser.byteLength_le_of_suffix (Parser.suffix_of_read hread)
    have hfound := ih (hle.trans hsize) fun item hitem htouches => by
      obtain ⟨spec, hspec, hstop⟩ := hplaces item (List.mem_cons_of_mem _ hitem) htouches
      exact ⟨spec, hspec, fun tree htree => hstop tree (List.mem_cons_of_mem _ htree)⟩
    obtain ⟨item, _ | span⟩ := r
    · rcases Grammar.package_or_code hread with ⟨name, -, -, rfl, -⟩ | ⟨tree, rfl, hstart⟩
      · exact hfound
      · -- The tree starts before what is left, and a later specification stops behind that place.
        intro item hitem htouches
        obtain ⟨spec, hspec, hstop⟩ := hplaces item (List.mem_cons_of_mem _ hitem) htouches
        have hplace := hstop tree (List.mem_cons_self ..)
        have hlt := stop_lt_of_repeats hrest item hitem spec hspec
        have hle' : byteLength rest ≤ tree.start := hstart
        rw [Tree.start_turned, Span.turned] at hplace
        simp only at hplace
        omega
    · obtain ⟨blanks, cs, after, -, -, hdecl, -⟩ := Grammar.exists_declText_of_item hread
      rcases hdecl.item with ⟨spec, rfl⟩ | ⟨specs, rfl⟩
      · exact hfound
      · exact hfound

/-- **Where the substituted imports of a file stand before its code, no item of code stands in front of
their declarations.** -/
theorem importsLead_of_leading {size : Nat} {text last : List Char} {package : String}
    {found : List (Item × Option Span)}
    (h : Parser.Repeats (Grammar.placedItem Grammar.rules) text found last)
    (hsize : byteLength text ≤ size)
    (hlead : LeadingImports subs ⟨package, Item.imports size 0 (found.map (·.1)),
      Item.codeOf size (found.map (·.1))⟩) :
    ImportsLead subs (found.map (·.1)) := by
  refine importsLead_of_places h hsize fun item hitem htouches => ?_
  obtain ⟨i, hi, hcontains, spec, hspec, hplace⟩ :=
    exists_import_of_touches htouches size hitem 0
  refine ⟨spec, hspec, fun tree htree => ?_⟩
  rw [← hplace]
  exact hlead i hi hcontains _ (List.mem_filterMap.2 ⟨_, htree, rfl⟩)

end PinnedImports.Imports
