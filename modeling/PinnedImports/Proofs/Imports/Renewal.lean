import PinnedImports.Analysis
import PinnedImports.Proofs.Build.Header
import PinnedImports.Proofs.Go.Places
import PinnedImports.Proofs.Imports.Conservation
import PinnedImports.Proofs.Imports.Placement

/-!
# Source files behind their rendering

A rendered file is read again as a source file of the same package (`SourceFile.exists_renewed`): its
build constraints are the same, the same type comparisons are found in it, and its imports are those
of the original with each substituted path in its place.
-/

set_option autoImplicit false

namespace PinnedImports

open Text Go Imports

/-- The import declarations of a file in which a path is substituted stand before every part of its
code. -/
def ImportsBeforeCode (text : List Char) (subs : Dictionary String) (source : Source) : Prop :=
  ∀ range ∈ importRanges text,
    (∃ i ∈ source.imports, subs.contains i.path = true ∧ Holds range i.spec) →
      ∀ tree ∈ Tree.preorderAll source.code, range.stop ≤ tree.start

instance (outer inner : Span) : Decidable (Holds outer inner) :=
  inferInstanceAs (Decidable (outer.start ≤ inner.start ∧ inner.stop ≤ outer.stop))

instance (text : List Char) (subs : Dictionary String) (source : Source) :
    Decidable (ImportsBeforeCode text subs source) :=
  inferInstanceAs (Decidable (∀ range ∈ importRanges text,
    (∃ i ∈ source.imports, subs.contains i.path = true ∧ Holds range i.spec) →
      ∀ tree ∈ Tree.preorderAll source.code, range.stop ≤ tree.start))

section

variable {text : List Char} {source : Source} {subs : Dictionary String}

theorem ImportsBeforeCode.leadingImports (hbefore : ImportsBeforeCode text subs source)
    (h : Source.parse? text = some source) : LeadingImports subs source := by
  intro i hi hcontains tree htree
  obtain ⟨ds, houtline⟩ := exists_outline h
  obtain ⟨p, hp, hip⟩ := houtline.exists_declaration hi
  have hholds := (houtline.inTurn hp).within i hip
  have hrange : p.1 ∈ importRanges text := houtline.ranges ▸ List.mem_map_of_mem hp
  have hstop := hbefore p.1 hrange ⟨i, hi, hcontains, hholds⟩ tree
    (Tree.preorder_subset_preorderAll htree tree (Tree.self_mem_preorder tree))
  exact hholds.2.trans hstop

/-- Each edit of a file ends where an import declaration in which a path is substituted ends, or
before. -/
theorem exists_range_of_edit (h : Source.parse? text = some source) :
    ∀ e ∈ edits text subs source.imports, 0 < e.stop ∧ ∃ range ∈ importRanges text,
      (∃ i ∈ source.imports, subs.contains i.path = true ∧ Holds range i.spec) ∧
        e.stop ≤ range.stop := by
  obtain ⟨ds, houtline⟩ := exists_outline h
  have hperm := houtline.numbered.edits_perm text subs
  rw [← houtline.imports] at hperm
  intro e he
  obtain ⟨d, hd, he⟩ := List.mem_flatMap.1 (hperm.mem_iff.1 he)
  obtain ⟨p, hp, rfl⟩ := List.mem_map.1 hd
  obtain ⟨found⟩ := houtline.laid.found p hp
  have hin := found.edits.1.editIn e he
  obtain ⟨i, hi, hcontains⟩ := exists_import_of_edit he
  have hmem : i ∈ source.imports := by
    rw [houtline.imports]
    exact List.mem_flatMap.2 ⟨p.2, hd, hi⟩
  refine ⟨Nat.zero_lt_of_lt hin.lt, p.1, ?_,
    ⟨i, hmem, hcontains, (houtline.inTurn hp).within i hi⟩, hin.stop_le⟩
  rw [← houtline.ranges]
  exact List.mem_map_of_mem hp

/-- What was found in the code of a file is found in that of the rendered one. -/
theorem typeComparison?_isSome_rendered {text' : List Char} {source' : Source}
    {ordered : List Edit} {trees : List Tree}
    (h : Source.parse? text = some source) (hbefore : ImportsBeforeCode text subs source)
    (hordered : ordered.Perm (edits text subs source.imports)) (hspliced : Spliced 0 text ordered text')
    (hcode : source.code = trees.map (Tree.turned (byteLength text)))
    (hcode' : source'.code = trees.map (Tree.turned (byteLength text'))) (package : String) :
    (typeComparison? text' source'.code package).isSome =
      (typeComparison? text source.code package).isSome := by
  obtain ⟨a, a', tail, rfl, rfl, hlast⟩ := hspliced.exists_tail
  rcases hlast with ⟨-, rfl, rfl⟩ | ⟨e, he, hstop⟩
  · rw [hcode', hcode]
  · -- The last edit ends within an import declaration, and so all code lies in the tail behind it.
    rw [hcode', hcode]
    apply typeComparison?_isSome_congr
    intro t ht
    obtain ⟨hpos, range, hrange, hsubstituted, hle⟩ :=
      exists_range_of_edit h e (hordered.mem_iff.1 he)
    have hstart := hbefore range hrange hsubstituted (t.turned (byteLength (a ++ tail))) (by
      rw [hcode, ← Tree.turnedAll_eq_map, Tree.preorderAll_turnedAll]
      exact List.mem_map_of_mem ht)
    rw [Tree.start_turned, byteLength_append] at hstart
    omega

end

/-- The second file is the first with paths substituted: nothing else that is judged has changed. -/
structure Renewed (subs : Dictionary String) (file file' : SourceFile) : Prop where
  path : file'.path = file.path
  package : file'.source.package = file.source.package
  compared : ∀ name, (file'.typeComparison? name).isSome = (file.typeComparison? name).isSome
  imports : ∀ p, p ∈ pairsOfImports file'.source.imports ↔
    p ∈ (pairsOfImports file.source.imports).map (substituted subs)

theorem Renewed.refl (file : SourceFile) : Renewed ∅ file file where
  path := rfl
  package := rfl
  compared _ := rfl
  imports p := by
    have hid : substituted ∅ = id := by
      funext p
      rfl
    rw [hid, List.map_id]

/-- **A rendered source file is read again.** -/
theorem SourceFile.exists_renewed {file : SourceFile} {subs : Dictionary String}
    (hparse : Source.parse? file.text.toList = some file.source)
    (hbefore : ImportsBeforeCode file.text.toList subs file.source)
    (hleads : LeadsInCode file.text.toList subs file.source.imports) (honeLine : OneLine subs) :
    let text' := render file.text subs file.source.imports
    (∀ p : Build.Platform, p.allowsSource text' = p.allowsSource file.text) ∧
      ∃ file', SourceFile.parse? file.path text' = some file' ∧ Renewed subs file file' := by
  intro text'
  obtain ⟨chars, ordered, hordered, hspliced, hreads⟩ :=
    exists_reread hparse (hbefore.leadingImports hparse) hleads
  obtain ⟨hlead, source', hsource', hpackage, ⟨trees, hcode, hcode'⟩, himports⟩ := hreads honeLine
  have htext' : text'.toList = chars := toList_render hspliced hordered
  rw [← htext'] at hlead hsource' hcode' hspliced
  constructor
  · intro p
    rcases hlead with hsame | ⟨lead, x, y, hscan, htext, htext'⟩
    · rw [String.toList_inj.1 hsame]
    · -- The header ends in front of the keyword of the first import declaration.
      rw [← String.ofList_toList (s := text'), ← String.ofList_toList (s := file.text), htext, htext']
      exact Build.allowsSource_congr hscan (by decide) (by decide) p
  · refine ⟨⟨file.path, text', source'⟩, ?_, rfl, hpackage, fun name => ?_, himports⟩
    · rw [SourceFile.parse?, hsource', Option.map_some]
    · exact typeComparison?_isSome_rendered hparse hbefore hordered hspliced hcode hcode' name

end PinnedImports
