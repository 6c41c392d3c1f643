import PinnedImports.Proofs.Go.Items
import PinnedImports.Proofs.Imports.Declared

/-!
# Import declarations in their file

`Laid` lists the import declarations of a text with their ranges: each range holds the text of a
declaration, and the ranges follow each other. An accepted file is laid out like this, and the
imports read off it are those of the listed declarations (`exists_laid`). The declarations with
parentheses are numbered in their order (`Outline`).
-/

set_option autoImplicit false

namespace PinnedImports.Imports

open Text Go

/-- The specifications of an item. -/
def specsOf : Item → List ImportSpec
  | .imported spec => [spec]
  | .importedBlock specs => specs
  | .package _ => []
  | .code _ => []

/-- The import declarations of a text that stands behind `before` in a text of `size` bytes. -/
inductive Laid (size : Nat) : List Char → List (Span × Declared) → List Char → Prop
  | done {before text : List Char} : Laid size before [] text
  | skip {before cs after : List Char} {ds : List (Span × Declared)} :
      Laid size (before ++ cs) ds after → Laid size before ds (cs ++ after)
  | decl {before cs after : List Char} {item : Item} {block : Option Nat}
      {ds : List (Span × Declared)} :
      DeclText (byteLength after) item cs →
        (∀ n, block = some n → ∃ specs, item = .importedBlock specs) →
          Laid size (before ++ cs) ds after →
            Laid size before ((⟨byteLength before, byteLength before + byteLength cs⟩,
              ⟨block, importsOf size block (specsOf item)⟩) :: ds) (cs ++ after)

/-- The import declaration in a range of the text has parentheses. -/
def Parenthesised (text : List Char) (range : Span) : Prop :=
  ∃ gap inside, Blanks gap ∧ range.textIn text = importWord ++ (gap ++ '(' :: (inside ++ [')']))

theorem textIn_chars (before cs after : List Char) :
    (⟨byteLength before, byteLength before + byteLength cs⟩ : Span).textIn
      (before ++ (cs ++ after)) = cs :=
  slice_append before cs after

/-- Behind the keyword and the blanks of a single import there is no parenthesis. -/
theorem not_parenthesised_single {before cs after : List Char} {n : Nat} {spec : ImportSpec}
    (h : DeclText n (.imported spec) cs) :
    ¬ Parenthesised (before ++ (cs ++ after))
      ⟨byteLength before, byteLength before + byteLength cs⟩ := by
  rintro ⟨gap, inside, hgap, heq⟩
  rw [textIn_chars] at heq
  cases h with
  | @single blanks s hblanks _ =>
    have hbehind := congrArg (afterGap false) (List.append_cancel_left heq)
    have hself := afterGap_specText hblanks s []
    rw [List.append_nil] at hself
    rw [hself, afterGap_append hgap, afterGap_solid false (by decide)] at hbehind
    obtain ⟨c, chars, hchars, hc⟩ := s.chars_start
    rw [hchars, List.cons.injEq] at hbehind
    exact hc.ne_paren hbehind.1

/-- The items of a text are laid out one behind the other. -/
theorem exists_laid_of_repeats {size : Nat} {text last : List Char}
    {found : List (Item × Option Span)}
    (h : Parser.Repeats (Grammar.placedItem Grammar.rules) text found last) :
    ∀ {before : List Char} (block : Nat), size = byteLength (before ++ text) →
      ∃ ds, Laid size before ds text ∧
        ds.map (·.1) = (found.filterMap (·.2)).map (Span.turned size) ∧
        ds.map (·.2) = declared size block (found.map (·.1)) ∧
        ∀ p ∈ ds, Parenthesised (before ++ text) p.1 → p.2.block ≠ none := by
  induction h with
  | stop _ => exact fun _ _ => ⟨[], .done, rfl, rfl, by simp⟩
  | @next text rest last r found hread _ ih =>
    intro before block hsize
    obtain ⟨item, _ | span⟩ := r
    · -- The item is no import declaration and is passed over.
      obtain ⟨hword, hitem⟩ := Grammar.not_import_of_item hread
      obtain ⟨cs, rfl⟩ := Parser.suffix_of_read hread
      have hplace : size = byteLength (before ++ cs ++ rest) := by
        rw [hsize, List.append_assoc]
      obtain ⟨ds, hlaid, hranges, hdeclared, hparentheses⟩ := ih block hplace
      rw [List.append_assoc] at hparentheses
      refine ⟨ds, .skip hlaid, hranges, ?_, hparentheses⟩
      rw [hdeclared, List.map_cons]
      rcases Grammar.noImport_of_item hword hitem with ⟨name, rfl⟩ | ⟨tree, rfl, -⟩ <;> rfl
    · -- Blanks in front of the declaration and the terminator behind it are passed over.
      obtain ⟨blanks, cs, after, -, rfl, hdecl, rfl, hend⟩ :=
        Grammar.exists_declText_of_item hread
      obtain ⟨closing, rfl⟩ := Parser.suffix_of_read hend
      have hspan : Span.turned size ⟨byteLength (cs ++ (closing ++ rest)),
          byteLength (closing ++ rest)⟩ =
            ⟨byteLength (before ++ blanks), byteLength (before ++ blanks) + byteLength cs⟩ := by
        simp only [Span.turned, Span.mk.injEq, hsize, byteLength_append]
        omega
      have hplace : size = byteLength (before ++ blanks ++ cs ++ closing ++ rest) := by
        rw [hsize]
        simp only [List.append_assoc]
      have htext : before ++ blanks ++ cs ++ closing ++ rest =
          before ++ (blanks ++ (cs ++ (closing ++ rest))) := by
        simp only [List.append_assoc]
      have hnext (n : Nat) := ih n hplace
      rw [htext] at hnext
      rcases hdecl.item with ⟨spec, rfl⟩ | ⟨specs, rfl⟩
      · obtain ⟨ds, hlaid, hranges, hdeclared, hparentheses⟩ := hnext block
        refine ⟨_, .skip (@Laid.decl _ _ _ _ _ none _ hdecl (by simp) (.skip hlaid)), ?_, ?_,
          List.forall_mem_cons.2 ⟨fun hsingle => ?_, hparentheses⟩⟩
        · rw [List.map_cons, hranges]
          simp only [List.filterMap_cons, List.map_cons, hspan]
        · rw [List.map_cons, hdeclared]
          rfl
        · rw [← List.append_assoc] at hsingle
          exact absurd hsingle (not_parenthesised_single hdecl)
      · obtain ⟨ds, hlaid, hranges, hdeclared, hparentheses⟩ := hnext (block + 1)
        refine ⟨_, .skip (@Laid.decl _ _ _ _ _ (some block) _ hdecl (fun _ _ => ⟨specs, rfl⟩)
          (.skip hlaid)), ?_, ?_, List.forall_mem_cons.2 ⟨fun _ => by simp, hparentheses⟩⟩
        · rw [List.map_cons, hranges]
          simp only [List.filterMap_cons, List.map_cons, hspan]
        · rw [List.map_cons, hdeclared]
          rfl

/-- The import declarations of an accepted file: where they lie, what they import, and how they are
numbered. -/
structure Outline (text : List Char) (source : Source) (ds : List (Span × Declared)) : Prop where
  laid : Laid (byteLength text) [] ds text
  ranges : ds.map (·.1) = importRanges text
  imports : source.imports = (ds.map (·.2)).flatMap (·.imports)
  numbered : Numbered (ds.map (·.2))
  /-- The numbers increase. -/
  increasing : ((ds.map (·.2)).filterMap (·.block)).Pairwise (· < ·)
  /-- Parentheses have a number. -/
  parentheses : ∀ p ∈ ds, Parenthesised text p.1 → p.2.block ≠ none

/-- **The import declarations of an accepted file lie one behind the other in its text, and those with
parentheses are numbered in their order.** -/
theorem exists_outline {text : List Char} {source : Source} (h : Source.parse? text = some source) :
    ∃ ds, Outline text source ds := by
  obtain ⟨found, last, hrepeats, hlast, rfl⟩ := Source.parse?_eq_some.1 h
  obtain ⟨placed, hplaced, rfl⟩ := Grammar.exists_placed hrepeats
  obtain ⟨mark, hmark⟩ := Grammar.exists_append_behindMark text
  obtain ⟨ds, hlaid, hranges, hdeclared, hparentheses⟩ :=
    exists_laid_of_repeats hplaced 0 (congrArg byteLength hmark)
  have hskip : Laid (byteLength text) [] ds (mark ++ Grammar.behindMark text) := .skip hlaid
  rw [← hmark] at hskip hparentheses
  refine ⟨ds, hskip, ?_, ?_, ?_, ?_, hparentheses⟩
  · rw [hranges, importRanges, Grammar.run?_placedItems hplaced hlast, Option.getD_some]
  · rw [hdeclared, flatMap_declared]
  · rw [hdeclared]
    exact numbered_declared _ _
  · rw [hdeclared]
    exact (declared_numbers _ _ 0).1

theorem exists_laid {text : List Char} {source : Source} (h : Source.parse? text = some source) :
    ∃ ds, Laid (byteLength text) [] ds text ∧ ds.map (·.1) = importRanges text ∧
      source.imports = (ds.map (·.2)).flatMap (·.imports) ∧ Numbered (ds.map (·.2)) := by
  obtain ⟨ds, houtline⟩ := exists_outline h
  exact ⟨ds, houtline.laid, houtline.ranges, houtline.imports, houtline.numbered⟩

/-! ## Where the declarations lie -/

variable {size : Nat} {before text : List Char} {ds : List (Span × Declared)}

/-- A listed declaration stands in the text. -/
structure Found (size : Nat) (text : List Char) (range : Span) (d : Declared) where
  before : List Char
  chars : List Char
  after : List Char
  item : Item
  text_eq : text = before ++ (chars ++ after)
  declText : DeclText (byteLength after) item chars
  start_eq : range.start = byteLength before
  stop_eq : range.stop = byteLength before + byteLength chars
  imports_eq : d.imports = importsOf size d.block (specsOf item)
  parentheses : ∀ n, d.block = some n → ∃ specs, item = .importedBlock specs

theorem Laid.found (h : Laid size before ds text) :
    ∀ d ∈ ds, Nonempty (Found size (before ++ text) d.1 d.2) := by
  induction h with
  | done => intro d hd; simp at hd
  | skip _ ih =>
    intro d hd
    simpa using ih d hd
  | @decl before cs after item block ds hdecl hblock _ ih =>
    intro d hd
    rcases List.mem_cons.1 hd with rfl | hd
    · exact ⟨before, cs, after, item, rfl, hdecl, rfl, rfl, rfl, hblock⟩
    · simpa using ih d hd

/-- The declarations lie behind each other. -/
theorem Laid.pairwise (h : Laid size before ds text) :
    (∀ d ∈ ds, byteLength before ≤ d.1.start) ∧
      ds.Pairwise fun a b => a.1.stop ≤ b.1.start := by
  induction h with
  | done => simp
  | skip _ ih =>
    refine ⟨fun d hd => ?_, ih.2⟩
    have hle := ih.1 d hd
    rw [byteLength_append] at hle
    omega
  | decl _ _ _ ih =>
    have hlater {d : Span × Declared} (hd : d ∈ _) := ih.1 d hd
    simp only [byteLength_append] at hlater
    refine ⟨fun d hd => ?_, List.pairwise_cons.2 ⟨fun d hd => hlater hd, ih.2⟩⟩
    rcases List.mem_cons.1 hd with rfl | hd
    · exact Nat.le_refl _
    · have hle := hlater hd
      omega

end PinnedImports.Imports
