import Mathlib.Data.List.Perm.Basic
import PinnedImports.Imports.Render
import PinnedImports.Proofs.Dictionary
import PinnedImports.Proofs.Imports.Rows
import PinnedImports.Proofs.Repetitions

/-!
# Edits by declaration

Rendering lists its edits block by block and names a block by its number. Here they are listed
declaration by declaration: each has its own edits, and together these are the edits of the file
(`edits_perm`).
-/

set_option autoImplicit false

namespace PinnedImports.Imports

open Text Go

/-- The imports of one import declaration, and the number of its parentheses. -/
structure Declared where
  block : Option Nat
  imports : List Import

/-- The import declarations among items of a text of `size` bytes, with parentheses numbered from
`block`. -/
def declared (size : Nat) : Nat → List Item → List Declared
  | _, [] => []
  | block, .imported spec :: rest => ⟨none, importsOf size none [spec]⟩ :: declared size block rest
  | block, .importedBlock specs :: rest =>
    ⟨some block, importsOf size (some block) specs⟩ :: declared size (block + 1) rest
  | block, .package _ :: rest => declared size block rest
  | block, .code _ :: rest => declared size block rest

/-- The edits of a declaration. -/
def Declared.edits (text : List Char) (subs : Dictionary String) (d : Declared) : List Edit :=
  match d.block with
  | none => d.imports.filterMap (literalEdit? subs)
  | some _ =>
    if d.imports.any fun spec => subs.contains spec.path then blockEdits text subs d.imports else []

theorem importsOf_block {size : Nat} {block : Option Nat} {specs : List ImportSpec} {i : Import}
    (h : i ∈ importsOf size block specs) : i.block = block := by
  obtain ⟨v, -, hv⟩ := List.mem_filterMap.1 h
  rw [ImportSpec.import?, Option.map_eq_some_iff] at hv
  obtain ⟨path, -, rfl⟩ := hv
  rfl

theorem importsOf_singleton (size : Nat) (block : Option Nat) (v : ImportSpec) :
    importsOf size block [v] = (v.import? size block).toList := by
  cases h : v.import? size block with
  | none => rw [importsOf_cons_none h]; rfl
  | some i => rw [importsOf_cons_some h]; rfl

/-- The imports of the items are those of the declarations, in order. -/
theorem flatMap_declared (size : Nat) (items : List Item) :
    ∀ block, Item.imports size block items = (declared size block items).flatMap (·.imports) := by
  induction items with
  | nil => exact fun _ => rfl
  | cons item items ih =>
    intro block
    cases item with
    | package name => rw [Item.imports, declared, ih]; all_goals simp
    | imported spec =>
      rw [Item.imports, declared, ih, List.flatMap_cons, importsOf_singleton]
    | importedBlock specs =>
      rw [Item.imports, declared, ih, List.flatMap_cons]
      rfl
    | code tree => rw [Item.imports, declared, ih]; all_goals simp

theorem declared_block {size : Nat} {items : List Item} :
    ∀ {block : Nat} {d : Declared}, d ∈ declared size block items →
      ∀ i ∈ d.imports, i.block = d.block := by
  induction items with
  | nil => intro block d hd; simp [declared] at hd
  | cons item items ih =>
    intro block d hd
    cases item with
    | package name => exact ih hd
    | code tree => exact ih hd
    | imported spec =>
      rcases List.mem_cons.1 hd with rfl | hd
      · exact fun i hi => importsOf_block hi
      · exact ih hd
    | importedBlock specs =>
      rcases List.mem_cons.1 hd with rfl | hd
      · exact fun i hi => importsOf_block hi
      · exact ih hd

/-- Parentheses are numbered in increasing order. -/
theorem declared_numbers (size : Nat) (items : List Item) :
    ∀ block, ((declared size block items).filterMap (·.block)).Pairwise (· < ·) ∧
      ∀ n ∈ (declared size block items).filterMap (·.block), block ≤ n := by
  induction items with
  | nil => intro block; simp [declared]
  | cons item items ih =>
    intro block
    cases item with
    | package name => exact ih block
    | code tree => exact ih block
    | imported spec => exact ih block
    | importedBlock specs =>
      obtain ⟨hpairwise, hle⟩ := ih (block + 1)
      simp only [declared, List.filterMap_cons]
      refine ⟨List.pairwise_cons.2 ⟨fun n hn => hle n hn, hpairwise⟩, fun n hn => ?_⟩
      rcases List.mem_cons.1 hn with rfl | hn
      · exact Nat.le_refl _
      · have hlt := hle n hn
        omega

/-! ## Blocks with a substitution -/

theorem nodup_touchedBlocks (subs : Dictionary String) (imports : List Import) :
    (touchedBlocks subs imports).Nodup := nodup_eraseDups _

theorem mem_touchedBlocks {subs : Dictionary String} {imports : List Import} {block : Nat} :
    block ∈ touchedBlocks subs imports ↔
      ∃ i ∈ imports, subs.contains i.path = true ∧ i.block = some block := by
  rw [touchedBlocks, List.mem_eraseDups, (sortBy_perm _ _).mem_iff, List.mem_filterMap]
  constructor
  · rintro ⟨i, hi, hblock⟩
    obtain ⟨hmem, hcontains⟩ := List.mem_filter.1 hi
    exact ⟨i, hmem, hcontains, hblock⟩
  · rintro ⟨i, hmem, hcontains, hblock⟩
    exact ⟨i, List.mem_filter.2 ⟨hmem, hcontains⟩, hblock⟩

/-- Declarations whose imports carry the number of the declaration, each number once. -/
structure Numbered (ds : List Declared) : Prop where
  block : ∀ d ∈ ds, ∀ i ∈ d.imports, i.block = d.block
  nodup : (ds.filterMap (·.block)).Nodup

theorem numbered_declared (size : Nat) (items : List Item) : Numbered (declared size 0 items) where
  block := fun _ hd => declared_block hd
  nodup := (declared_numbers size items 0).1.imp fun hlt => Nat.ne_of_lt hlt

namespace Numbered

variable {ds : List Declared}

theorem tail {d : Declared} (h : Numbered (d :: ds)) : Numbered ds where
  block := fun e he => h.block e (List.mem_cons_of_mem _ he)
  nodup := h.nodup.sublist ((List.sublist_cons_self d ds).filterMap _)

theorem block_ne {d e : Declared} (h : Numbered (d :: ds)) (he : e ∈ ds) {block : Nat}
    (hd : d.block = some block) : e.block ≠ some block := by
  intro hblock
  have hnodup := h.nodup
  rw [List.filterMap_cons_some hd, List.nodup_cons] at hnodup
  exact hnodup.1 (List.mem_filterMap.2 ⟨e, he, hblock⟩)

/-- The imports of a block are those of its declaration. -/
theorem filter_block (h : Numbered ds) {d : Declared} (hd : d ∈ ds) {block : Nat}
    (hblock : d.block = some block) :
    (ds.flatMap (·.imports)).filter (fun spec => spec.block == some block) = d.imports := by
  induction ds with
  | nil => simp at hd
  | cons e ds ih =>
    have hself (c : Declared) (hc : c ∈ e :: ds) (hcb : c.block = some block) :
        c.imports.filter (fun spec => spec.block == some block) = c.imports := by
      refine List.filter_eq_self.2 fun i hi => ?_
      rw [h.block c hc i hi, hcb]
      exact beq_self_eq_true _
    have hother (c : Declared) (hc : c ∈ e :: ds) (hcb : c.block ≠ some block) :
        c.imports.filter (fun spec => spec.block == some block) = [] := by
      refine List.filter_eq_nil_iff.2 fun i hi => ?_
      rw [h.block c hc i hi]
      simpa using hcb
    rw [List.flatMap_cons, List.filter_append]
    rcases List.mem_cons.1 hd with rfl | hd
    · -- No other declaration has the number.
      have hrest : (ds.flatMap (·.imports)).filter (fun spec => spec.block == some block) = [] := by
        rw [List.filter_flatMap]
        exact List.flatMap_eq_nil_iff.2 fun c hc =>
          hother c (List.mem_cons_of_mem _ hc) (h.block_ne hc hblock)
      rw [hself d (List.mem_cons_self ..) hblock, hrest, List.append_nil]
    · have hne : e.block ≠ some block := fun heq => h.block_ne hd heq hblock
      rw [hother e (List.mem_cons_self ..) hne, ih h.tail hd, List.nil_append]

/-- A block is one with a substitution if one of its declaration's imports is substituted. -/
theorem mem_touched (h : Numbered ds) (subs : Dictionary String) {d : Declared} (hd : d ∈ ds)
    {block : Nat} (hblock : d.block = some block) :
    block ∈ touchedBlocks subs (ds.flatMap (·.imports)) ↔
      d.imports.any (fun spec => subs.contains spec.path) = true := by
  rw [mem_touchedBlocks, List.any_eq_true]
  constructor
  · rintro ⟨i, hi, hcontains, hib⟩
    refine ⟨i, ?_, hcontains⟩
    rw [← h.filter_block hd hblock, List.mem_filter]
    exact ⟨hi, by rw [hib]; exact beq_self_eq_true _⟩
  · rintro ⟨i, hi, hcontains⟩
    exact ⟨i, List.mem_flatMap.2 ⟨d, hd, hi⟩, hcontains, by rw [h.block d hd i hi, hblock]⟩

end Numbered

/-! ## The edits of a file -/

/-- The edits of a declaration outside of the blocks with a substitution. -/
def Declared.literalEdits (subs : Dictionary String) (touched : List Nat) (d : Declared) :
    List Edit :=
  if d.block.any touched.contains then [] else d.imports.filterMap (literalEdit? subs)

/-- The edits of a declaration in a block with a substitution. -/
def Declared.touchedEdits (text : List Char) (subs : Dictionary String) (touched : List Nat)
    (d : Declared) : List Edit :=
  if d.block.any touched.contains then blockEdits text subs d.imports else []

variable {ds : List Declared}

theorem filterMap_literalEdit_eq_nil {subs : Dictionary String} {specs : List Import}
    (h : ¬(specs.any fun spec => subs.contains spec.path) = true) :
    specs.filterMap (literalEdit? subs) = [] := by
  refine List.filterMap_eq_nil_iff.2 fun i hi => ?_
  rw [List.any_eq_true] at h
  rw [literalEdit?, Option.map_eq_none_iff, Option.eq_none_iff_forall_not_mem]
  intro path hpath
  exact h ⟨i, hi, Dictionary.contains_iff.2 ⟨path, hpath⟩⟩

theorem Numbered.edits_eq (h : Numbered ds) (text : List Char) (subs : Dictionary String)
    {d : Declared} (hd : d ∈ ds) :
    let touched := touchedBlocks subs (ds.flatMap (·.imports))
    d.literalEdits subs touched ++ d.touchedEdits text subs touched = d.edits text subs := by
  intro touched
  cases hblock : d.block with
  | none => simp [Declared.literalEdits, Declared.touchedEdits, Declared.edits, hblock]
  | some block =>
    have htouched := h.mem_touched subs hd hblock
    by_cases hany : (d.imports.any fun spec => subs.contains spec.path) = true
    · have hmem : block ∈ touched := htouched.2 hany
      simp [Declared.literalEdits, Declared.touchedEdits, Declared.edits, hblock, hmem, hany]
    · have hmem : block ∉ touched := fun hmem => hany (htouched.1 hmem)
      have hnil := filterMap_literalEdit_eq_nil hany
      simp [Declared.literalEdits, Declared.touchedEdits, Declared.edits, hblock, hmem, hany, hnil]

/-- Outside of the blocks with a substitution the edits stand in the order of the declarations. -/
theorem Numbered.literalEdits_eq (h : Numbered ds) (subs : Dictionary String)
    (touched : List Nat) :
    ((ds.flatMap (·.imports)).filter fun spec => !(spec.block.any touched.contains)).filterMap
        (literalEdit? subs) = ds.flatMap (·.literalEdits subs touched) := by
  rw [List.filter_flatMap, List.filterMap_flatMap]
  refine List.flatMap_congr fun d hd => ?_
  rw [Declared.literalEdits]
  split
  · rename_i htouched
    have hnil : (d.imports.filter fun spec => !(spec.block.any touched.contains)) = [] := by
      refine List.filter_eq_nil_iff.2 fun i hi => ?_
      rw [h.block d hd i hi, htouched]
      simp
    rw [hnil, List.filterMap_nil]
  · rename_i htouched
    have hself : (d.imports.filter fun spec => !(spec.block.any touched.contains)) = d.imports := by
      refine List.filter_eq_self.2 fun i hi => ?_
      rw [h.block d hd i hi]
      simpa using htouched
    rw [hself]

/-- The edits of blocks, listed by number, are those of their declarations. -/
theorem flatMap_touched {text : List Char} {subs : Dictionary String} {touched : List Nat}
    {specs : Nat → List Import} :
    ∀ {ds : List Declared}, (∀ d ∈ ds, ∀ block, d.block = some block → specs block = d.imports) →
      ((ds.filterMap (·.block)).filter touched.contains).flatMap
          (fun block => blockEdits text subs (specs block)) =
        ds.flatMap (·.touchedEdits text subs touched) := by
  intro ds
  induction ds with
  | nil => exact fun _ => rfl
  | cons d ds ih =>
    intro hspecs
    have hrest := ih fun e he => hspecs e (List.mem_cons_of_mem _ he)
    rw [List.flatMap_cons, ← hrest, Declared.touchedEdits]
    cases hblock : d.block with
    | none => simp [hblock]
    | some block =>
      have hself := hspecs d (List.mem_cons_self ..) block hblock
      rw [List.filterMap_cons_some hblock]
      by_cases hmem : block ∈ touched
      · rw [List.filter_cons_of_pos (by simpa using hmem), List.flatMap_cons, hself]
        simp [hmem]
      · rw [List.filter_cons_of_neg (by simpa using hmem)]
        simp [hmem]

/-- **The edits of a file are those of its import declarations.** -/
theorem Numbered.edits_perm (h : Numbered ds) (text : List Char) (subs : Dictionary String) :
    (edits text subs (ds.flatMap (·.imports))).Perm (ds.flatMap (·.edits text subs)) := by
  rw [Imports.edits]
  generalize htouched : touchedBlocks subs (ds.flatMap (·.imports)) = touched
  -- The numbers of the blocks come in increasing order, which need not be shown to be the order of
  -- the declarations: without repetitions the two lists are permutations of each other.
  have hblocks : touched.Perm ((ds.filterMap (·.block)).filter touched.contains) := by
    refine (List.perm_ext_iff_of_nodup ?_ (h.nodup.filter _)).2 fun block => ?_
    · rw [← htouched]
      exact nodup_touchedBlocks subs _
    · rw [List.mem_filter, List.contains_iff_mem]
      refine ⟨fun hmem => ⟨?_, hmem⟩, fun hmem => hmem.2⟩
      rw [← htouched, mem_touchedBlocks] at hmem
      obtain ⟨i, hi, -, hib⟩ := hmem
      obtain ⟨d, hd, hi⟩ := List.mem_flatMap.1 hi
      exact List.mem_filterMap.2 ⟨d, hd, by rw [← h.block d hd i hi, hib]⟩
  have hedits : ds.flatMap (·.edits text subs) =
      ds.flatMap fun d => d.literalEdits subs touched ++ d.touchedEdits text subs touched := by
    refine List.flatMap_congr fun d hd => ?_
    rw [← htouched]
    exact (h.edits_eq text subs hd).symm
  rw [hedits, h.literalEdits_eq]
  refine List.Perm.trans ?_ (List.flatMap_append_perm ds _ _)
  refine List.Perm.append_left _ ((hblocks.flatMap_right _).trans (.of_eq ?_))
  exact flatMap_touched fun d hd block hblock => h.filter_block hd hblock

end PinnedImports.Imports
