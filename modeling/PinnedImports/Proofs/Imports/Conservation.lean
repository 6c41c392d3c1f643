import PinnedImports.Proofs.Imports.Blocks
import PinnedImports.Proofs.Imports.Leading

/-!
# Conservation of imports

A rendered file is read again: as a file with the same package name and the same code, whose imports
are those of the original with each substituted path in its place (`exists_reread`). The file is
followed item by item. An import declaration is exchanged for another one, and neither it nor a
package clause is read with a look at what stands behind it.

Two things are asked of the file. Its substituted imports stand before all code, where Go wants every
import; other imports may stand anywhere. And the run of comment lines above each group that is written
anew begins outside of comments: a line within a block comment may look like a comment line, and moving
it tears the comment apart.
-/

set_option autoImplicit false

namespace PinnedImports.Imports

open Text Go

/-! ## One declaration -/

/-- The run of comment lines above each written group of a declaration begins in code. -/
def Declared.LeadsInCode (text : List Char) (subs : Dictionary String) (d : Declared) : Prop :=
  ∀ block, d.block = some block → (d.imports.any fun spec => subs.contains spec.path) = true →
    ∀ rows, specLines? text d.imports = some rows → GroupsInCode text subs (groups rows)

theorem map_specLines? {text : List Char} {specs : List Import} :
    ∀ {rows : List (Import × SpecLine)}, specLines? text specs = some rows →
      rows.map (·.1) = specs := by
  induction specs with
  | nil =>
    intro rows h
    rw [specLines?, Option.some.injEq] at h
    rw [← h]
    rfl
  | cons spec specs ih =>
    intro rows h
    obtain ⟨line, others, -, hothers, rfl⟩ := specLines?_cons h
    rw [List.map_cons, ih hothers]

/-- **An import declaration is exchanged for one that imports the same up to the substitutions.** -/
theorem exists_exchanged_decl {text before cs after : List Char} {subs : Dictionary String}
    {item : Item} {d : Declared} (htext : text = before ++ (cs ++ after))
    (hdecl : DeclText (byteLength after) item cs) (hcode : scan .code before = .code)
    (himports : d.imports = importsOf (byteLength text) d.block (specsOf item))
    (hparentheses : ∀ n, d.block = some n → ∃ specs, item = .importedBlock specs)
    (hleads : d.LeadsInCode text subs) :
    ∃ cs', Spliced (byteLength before) cs (d.edits text subs) cs' ∧
      (OneLine subs → ∀ n, ∃ item', DeclText n item' cs' ∧
        ∀ p, p ∈ pairsOf (specsOf item') ↔ p ∈ (pairsOf (specsOf item)).map (substituted subs)) := by
  rcases d.edits_cases text subs with ⟨hedits, -⟩ | ⟨block, rows, hblock, hany, hrows, hedits⟩
  · -- Only literals are exchanged.
    have hsize : byteLength text = byteLength before + byteLength cs + byteLength after := by
      rw [htext, byteLength_append, byteLength_append, Nat.add_assoc]
    obtain ⟨cs', hspliced, hitem⟩ := exists_spliced_decl subs d.block hdecl hsize
    rw [← himports, ← hedits] at hspliced
    refine ⟨cs', hspliced, fun honeLine n => ?_⟩
    obtain ⟨item', hdecl', hpairs⟩ := hitem honeLine n
    exact ⟨item', hdecl', fun p => by rw [hpairs]⟩
  · -- The groups of the block are written anew, within the parentheses.
    have hgroups := hleads block hblock hany rows hrows
    obtain ⟨specs, rfl⟩ := hparentheses block hblock
    have hmap : rows.map (·.1) = importsOf (byteLength text) d.block specs := by
      rw [map_specLines? hrows, himports]
      rfl
    have hpairs : pairsOfRows rows = pairsOf specs := by
      rw [← pairsOf_importsOf (byteLength text) d.block specs, ← hmap, List.map_map]
      rfl
    rw [himports] at hany
    rw [himports, hblock] at hrows
    rw [hedits]
    cases hdecl with
    | @block gap inside _ hgap hlines =>
      have hopened : scan .code (before ++ (importWord ++ (gap ++ ['(']))) = .code := by
        rw [scan_code_append hcode]
        exact scan_opened hgap
      have hguard : Guarded (before ++ (importWord ++ (gap ++ ['(']))) := by
        have hword : scan .code (before ++ (importWord ++ gap)) = .code := by
          rw [scan_code_append hcode, scan_code_append scan_importWord]
          exact scan_blanks hgap
        have hparen := guarded_paren hword
        rwa [List.append_assoc, List.append_assoc] at hparen
      have hinside : text = before ++ (importWord ++ (gap ++ ['('])) ++ (inside ++ ')' :: after) := by
        rw [htext]
        simp
      obtain ⟨inside', hspliced, himported⟩ :=
        (exists_rows htext hlines hrows).grouped.exists_spliced hinside hopened hguard hgroups
      rw [byteLength_append] at hspliced
      have hdecl := (hspliced.prepend (importWord ++ (gap ++ ['(']))).behind [')']
      simp only [List.append_assoc, List.singleton_append] at hdecl
      refine ⟨_, hdecl, fun honeLine n => ?_⟩
      obtain ⟨specs', hlines', hpairs'⟩ := himported honeLine (n + 1)
      refine ⟨.importedBlock specs', .block hgap hlines', fun p => ?_⟩
      rw [specsOf, hpairs', flatten_groups, hpairs]
      rfl

/-! ## Items -/

/-- The name of a package clause. -/
def packageName? : Item → Option String
  | .package name => some name
  | _ => none

/-- The tree of an item of code. -/
def tree? : Item → Option Tree
  | .code tree => some tree
  | _ => none

/-- The names and the paths that items import. -/
def pairsOfItems (items : List Item) : List (Option String × String) :=
  items.flatMap fun item => pairsOf (specsOf item)

/-- The second items have the package names and the code of the first ones, and import what these do
up to the substitutions. -/
structure Rewritten (subs : Dictionary String) (items items' : List Item) : Prop where
  packages : items'.filterMap packageName? = items.filterMap packageName?
  code : items'.filterMap tree? = items.filterMap tree?
  imports : ∀ p, p ∈ pairsOfItems items' ↔ p ∈ (pairsOfItems items).map (substituted subs)

namespace Rewritten

variable {subs : Dictionary String} {items items' : List Item}

theorem cons {item item' : Item} (hpackage : packageName? item' = packageName? item)
    (htree : tree? item' = tree? item)
    (himports : ∀ p, p ∈ pairsOf (specsOf item') ↔
      p ∈ (pairsOf (specsOf item)).map (substituted subs))
    (h : Rewritten subs items items') : Rewritten subs (item :: items) (item' :: items') where
  packages := by rw [List.filterMap_cons, List.filterMap_cons, hpackage, h.packages]
  code := by rw [List.filterMap_cons, List.filterMap_cons, htree, h.code]
  imports := by
    intro p
    rw [pairsOfItems, pairsOfItems, List.flatMap_cons, List.flatMap_cons, List.map_append,
      List.mem_append, List.mem_append, himports]
    exact or_congr_right (h.imports p)

/-- Items in which no path is substituted are kept. -/
theorem kept (h : ∀ item ∈ items, ¬ Touches subs item) : Rewritten subs items items where
  packages := rfl
  code := rfl
  imports := by
    intro p
    have hsame : (pairsOfItems items).map (substituted subs) = pairsOfItems items := by
      rw [pairsOfItems, List.map_flatMap]
      exact List.flatMap_congr fun item hitem => map_substituted_untouched (h item hitem)
    rw [hsame]

end Rewritten

/-- A text is read to its end, as items that are the given ones but for substituted paths. -/
def ReadsAs (subs : Dictionary String) (items : List Item) (text : List Char) : Prop :=
  ∃ items' last, Parser.Repeats (Grammar.item Grammar.rules) text items' last ∧
    afterGap false last = [] ∧ Rewritten subs items items'

/-- Where no path is substituted any more the text is read as before. -/
theorem readsAs_untouched {subs : Dictionary String} {text last : List Char}
    {found : List (Item × Option Span)}
    (h : Parser.Repeats (Grammar.placedItem Grammar.rules) text found last)
    (hlast : afterGap false last = [])
    (huntouched : ∀ item ∈ found.map (·.1), ¬ Touches subs item) :
    ReadsAs subs (found.map (·.1)) text :=
  ⟨_, last, Grammar.repeats_item h, hlast, .kept huntouched⟩

/-! ## Whole files -/

/-- The second text is the first, or the two are the same up to a character of the code behind what
stands before them. The character begins an import declaration. -/
def SharesLead (before text text' : List Char) : Prop :=
  text' = text ∨ ∃ lead x y, scan .code (before ++ lead) = .code ∧ text = lead ++ 'i' :: x ∧
    text' = lead ++ 'i' :: y

theorem SharesLead.prepend {before passed text text' : List Char}
    (h : SharesLead (before ++ passed) text text') :
    SharesLead before (passed ++ text) (passed ++ text') := by
  rcases h with rfl | ⟨lead, x, y, hcode, rfl, rfl⟩
  · exact .inl rfl
  · refine .inr ⟨passed ++ lead, x, y, ?_, by simp, by simp⟩
    rw [← List.append_assoc]
    exact hcode

theorem SharesLead.head? {before text text' : List Char} (h : SharesLead before text text') :
    text'.head? = text.head? := by
  rcases h with rfl | ⟨lead, x, y, -, rfl, rfl⟩
  · rfl
  · rw [List.head?_append, List.head?_append]
    rfl

/-- The second text is the first with the edits made behind a common lead, and it is read as the given
items but for substituted paths. -/
def Exchanged (subs : Dictionary String) (before : List Char) (items : List Item) (es : List Edit)
    (text text' : List Char) : Prop :=
  Spliced (byteLength before) text es text' ∧
    (OneLine subs → SharesLead before text text' ∧ ReadsAs subs items text')

variable {whole : List Char} {subs : Dictionary String}

theorem declared_cons {after : Nat} {item : Item} {cs : List Char} (h : DeclText after item cs)
    (size block : Nat) (items : List Item) :
    ∃ number next, declared size block (item :: items) =
        ⟨number, importsOf size number (specsOf item)⟩ :: declared size next items ∧
      ∀ n, number = some n → ∃ specs, item = .importedBlock specs := by
  rcases h.item with ⟨spec, rfl⟩ | ⟨specs, rfl⟩
  · exact ⟨none, block, rfl, by simp⟩
  · exact ⟨some block, block + 1, rfl, fun _ _ => ⟨specs, rfl⟩⟩

theorem packageName?_of_declText {after : Nat} {item : Item} {cs : List Char}
    (h : DeclText after item cs) : packageName? item = none := by
  rcases h.item with ⟨spec, rfl⟩ | ⟨specs, rfl⟩
  · rfl
  · rfl

theorem tree?_of_declText {after : Nat} {item : Item} {cs : List Char}
    (h : DeclText after item cs) : tree? item = none := by
  rcases h.item with ⟨spec, rfl⟩ | ⟨specs, rfl⟩
  · rfl
  · rfl

/-- What stands behind an item is exchanged, and the item still ends there. -/
def ExchangedBehind (subs : Dictionary String) (before : List Char) (items : List Item)
    (es : List Edit) (after after' : List Char) : Prop :=
  Spliced (byteLength before) after es after' ∧
    (OneLine subs → SharesLead before after after' ∧
      ∃ rest', Grammar.itemEnd.read after' = some ((), rest') ∧ ReadsAs subs items rest')

/-- The end of an item stays, whatever is exchanged behind it. -/
theorem exists_behind {before after rest last : List Char} {found : List (Item × Option Span)}
    {block : Nat} (hend : Grammar.itemEnd.read after = some ((), rest))
    (hrest : Parser.Repeats (Grammar.placedItem Grammar.rules) rest found last)
    (hlast : afterGap false last = []) (hlead : ImportsLead subs (found.map (·.1)))
    (hwhole : whole = before ++ after) (hcode : scan .code before = .code)
    (ih : ∀ {b : List Char}, whole = b ++ rest → scan .code b = .code → ∃ rest',
      Exchanged subs b (found.map (·.1))
        (itemEdits whole subs block (found.map (·.1))) rest rest') :
    ∃ after', ExchangedBehind subs before (found.map (·.1))
      (itemEdits whole subs block (found.map (·.1))) after after' := by
  rcases Grammar.exists_blanks_of_itemEnd hend with ⟨closing, hclosing, rfl⟩ | ⟨rfl, -, hgap⟩
  · have hcode' : scan .code (before ++ closing) = .code := by
      rw [scan_code_append hcode]
      exact scan_closing hclosing
    obtain ⟨rest', hspliced, hreads⟩ := ih (by rw [hwhole, List.append_assoc]) hcode'
    rw [byteLength_append] at hspliced
    refine ⟨closing ++ rest', hspliced.prepend closing, fun honeLine => ⟨?_, rest', ?_, ?_⟩⟩
    · exact (hreads honeLine).1.prepend
    · exact Grammar.read_itemEnd_closing hclosing rest'
    · exact (hreads honeLine).2
  · -- Only blanks are left, so nothing is edited any more.
    have huntouched := untouched_of_ended hrest hgap hlead
    rw [itemEdits_untouched whole huntouched]
    exact ⟨rest, .keep, fun _ => ⟨.inl rfl, rest, hend, readsAs_untouched hrest hlast huntouched⟩⟩

/-- A package clause stays as it is in front of what is exchanged. -/
theorem ExchangedBehind.package {before cs after after' : List Char} {name : String}
    {items : List Item} {es : List Edit} (hcs : PackageText name cs)
    (hafter : EndsWord after)
    (h : ExchangedBehind subs (before ++ cs) items es after after') :
    Exchanged subs before (.package name :: items) es (cs ++ after) (cs ++ after') := by
  obtain ⟨hspliced, hreads⟩ := h
  rw [byteLength_append] at hspliced
  refine ⟨hspliced.prepend cs, fun honeLine => ?_⟩
  obtain ⟨hlead, rest', hend, items', last, hrepeats, hlast, hrewritten⟩ := hreads honeLine
  have hitem := Grammar.read_item_package Grammar.rules hcs (hafter.of_head? hlead.head?) hend
  refine ⟨hlead.prepend, _, last, .next hitem hrepeats, hlast, .cons rfl rfl ?_ hrewritten⟩
  intro p
  simp [specsOf, pairsOf]

/-- An import declaration is exchanged in front of what is exchanged behind it. -/
theorem ExchangedBehind.declaration {before blanks cs cs' after after' : List Char} {item : Item}
    {items : List Item} {es es' : List Edit} (hcode : scan .code (before ++ blanks) = .code)
    (hblanks : Blanks blanks) (hdecl : DeclText (byteLength after) item cs)
    (hspliced : Spliced (byteLength (before ++ blanks)) cs es cs')
    (hdecl' : OneLine subs → ∀ n, ∃ item', DeclText n item' cs' ∧
      ∀ p, p ∈ pairsOf (specsOf item') ↔ p ∈ (pairsOf (specsOf item)).map (substituted subs))
    (h : ExchangedBehind subs (before ++ blanks ++ cs) items es' after after') :
    Exchanged subs before (item :: items) (es ++ es') (blanks ++ (cs ++ after))
      (blanks ++ (cs' ++ after')) := by
  obtain ⟨hspliced', hreads⟩ := h
  rw [byteLength_append] at hspliced'
  have hall := hspliced.append hspliced'
  rw [byteLength_append] at hall
  refine ⟨hall.prepend blanks, fun honeLine => ?_⟩
  obtain ⟨-, rest', hend, items', last, hrepeats, hlast, hrewritten⟩ := hreads honeLine
  obtain ⟨item', hdecl', hpairs⟩ := hdecl' honeLine (byteLength after')
  have hitem := Grammar.read_item_declText Grammar.rules hblanks hdecl' hend
  refine ⟨?_, _, last, .next hitem hrepeats, hlast, .cons ?_ ?_ hpairs hrewritten⟩
  · -- Both declarations begin with the keyword, and the texts are the same in front of it.
    obtain ⟨x, hx⟩ := List.head?_eq_some_iff.1 (hdecl.head? after)
    obtain ⟨y, hy⟩ := List.head?_eq_some_iff.1 (hdecl'.head? after')
    exact .inr ⟨blanks, x, y, hcode, by rw [hx], by rw [hy]⟩
  · rw [packageName?_of_declText hdecl', packageName?_of_declText hdecl]
  · rw [tree?_of_declText hdecl', tree?_of_declText hdecl]

/-- **The items of a text are exchanged one after another.** -/
theorem exists_exchanged {text last : List Char} {found : List (Item × Option Span)}
    (h : Parser.Repeats (Grammar.placedItem Grammar.rules) text found last)
    (hlast : afterGap false last = []) :
    ∀ {before : List Char} (block : Nat), whole = before ++ text → scan .code before = .code →
      ImportsLead subs (found.map (·.1)) →
        (∀ d ∈ declared (byteLength whole) block (found.map (·.1)), d.LeadsInCode whole subs) →
          ∃ text', Exchanged subs before (found.map (·.1))
            (itemEdits whole subs block (found.map (·.1))) text text' := by
  induction h with
  | @stop text hread =>
    intro before block _ _ _ _
    have hnone : (Grammar.item Grammar.rules).read text = none := by
      rw [Grammar.read_item, hread]
      rfl
    exact ⟨text, .keep, fun _ => ⟨.inl rfl, [], text, .stop hnone, hlast, .kept (by simp)⟩⟩
  | @next text rest last r found hread hrest ih =>
    intro before block hwhole hcode hlead hleads
    obtain ⟨item, _ | span⟩ := r
    · rcases Grammar.package_or_code hread with
        ⟨name, cs, after, rfl, rfl, hcs, hafter, hend⟩ | ⟨tree, rfl, -⟩
      · have hcode' : scan .code (before ++ cs) = .code := by
          rw [scan_code_append hcode]
          exact hcs.scan
        obtain ⟨after', hbehind⟩ := exists_behind hend hrest hlast hlead
          (by rw [hwhole, List.append_assoc]) hcode'
          fun hw hb => ih hlast block hw hb hlead hleads
        exact ⟨cs ++ after', hbehind.package hcs hafter⟩
      · -- Behind an item of code no path is substituted.
        have huntouched := untouched_of_code hlead
        rw [List.map_cons, itemEdits_untouched whole huntouched]
        exact ⟨text, .keep, fun _ =>
          ⟨.inl rfl, readsAs_untouched (.next hread hrest) hlast huntouched⟩⟩
    · -- The declaration takes its number, and the blocks behind it are numbered from the next one.
      obtain ⟨blanks, cs, after, hblanks, rfl, hdecl, -, hend⟩ :=
        Grammar.exists_declText_of_item hread
      obtain ⟨number, next, hdeclared, hparentheses⟩ :=
        declared_cons hdecl (byteLength whole) block (found.map (·.1))
      have hcode' : scan .code (before ++ blanks) = .code := by
        rw [scan_code_append hcode]
        exact scan_blanks hblanks
      have hcode'' : scan .code (before ++ blanks ++ cs) = .code := by
        rw [scan_code_append hcode']
        exact scan_declText hdecl
      rw [List.map_cons, hdeclared] at hleads
      rw [List.map_cons, itemEdits, hdeclared, List.flatMap_cons, ← itemEdits]
      have htext : whole = before ++ blanks ++ (cs ++ after) := by
        rw [hwhole, List.append_assoc]
      obtain ⟨cs', hspliced, hdecl'⟩ := exists_exchanged_decl htext hdecl hcode' rfl
        hparentheses (hleads _ (List.mem_cons_self ..))
      obtain ⟨after', hbehind⟩ := exists_behind hend hrest hlast
        (importsLead_tail hdecl hlead) (by rw [List.append_assoc]; exact htext) hcode''
        fun hw hb => ih hlast next hw hb (importsLead_tail hdecl hlead)
          fun d hd => hleads d (List.mem_cons_of_mem _ hd)
      exact ⟨blanks ++ (cs' ++ after'),
        hbehind.declaration hcode' hblanks hdecl hspliced hdecl'⟩

/-! ## Rendered files -/

/-- The run of comment lines above each group that is written anew begins in code. -/
def LeadsInCode (text : List Char) (subs : Dictionary String) (imports : List Import) : Prop :=
  ∀ block ∈ touchedBlocks subs imports,
    ∀ rows ∈ specLines? text (imports.filter fun spec => spec.block == some block),
      GroupsInCode text subs (groups rows)

instance (text : List Char) (subs : Dictionary String) (imports : List Import) :
    Decidable (LeadsInCode text subs imports) :=
  inferInstanceAs (Decidable (∀ block ∈ touchedBlocks subs imports,
    ∀ rows ∈ specLines? text (imports.filter fun spec => spec.block == some block),
      GroupsInCode text subs (groups rows)))

theorem leadsInCode_declared {text : List Char} {ds : List Declared} (hnumbered : Numbered ds)
    (h : LeadsInCode text subs (ds.flatMap (·.imports))) : ∀ d ∈ ds, d.LeadsInCode text subs := by
  intro d hd block hblock hany rows hrows
  refine h block ((hnumbered.mem_touched subs hd hblock).2 hany) rows ?_
  rw [hnumbered.filter_block hd hblock]
  exact hrows

/-- The names and the paths of imports. -/
def pairsOfImports (imports : List Import) : List (Option String × String) :=
  imports.map fun i => (i.name, i.path)

theorem pairsOfImports_append (a b : List Import) :
    pairsOfImports (a ++ b) = pairsOfImports a ++ pairsOfImports b := List.map_append

theorem pairsOfImports_imports (size : Nat) (items : List Item) :
    ∀ block, pairsOfImports (Item.imports size block items) = pairsOfItems items := by
  induction items with
  | nil => exact fun _ => rfl
  | cons item items ih =>
    intro block
    rw [pairsOfItems, List.flatMap_cons, ← pairsOfItems]
    cases item with
    | package name => exact ih block
    | code tree => exact ih block
    | imported spec =>
      rw [Item.imports, pairsOfImports_append, ih, ← importsOf_singleton]
      exact congrArg (· ++ _) (pairsOf_importsOf size none [spec])
    | importedBlock specs =>
      rw [Item.imports, pairsOfImports_append, ih]
      exact congrArg (· ++ _) (pairsOf_importsOf size (some block) specs)

theorem lastPackage_eq (items : List Item) :
    Item.lastPackage items = (items.filterMap packageName?).foldl (fun _ name => name) "" := by
  rw [Item.lastPackage, List.foldl_filterMap]
  congr 1
  funext last item
  cases item <;> rfl

theorem codeOf_eq (size : Nat) (items : List Item) :
    Item.codeOf size items = (items.filterMap tree?).map (Tree.turned size) := by
  rw [Item.codeOf, List.map_filterMap]
  congr 1
  funext item
  cases item <;> rfl

/-- A byte order mark at the front stays, and none appears where the first character stays. -/
theorem exists_passed (text : List Char) :
    ∃ passed, text = passed ++ Grammar.behindMark text ∧ scan .code passed = .code ∧
      ∀ rest, rest.head? = (Grammar.behindMark text).head? →
        Grammar.behindMark (passed ++ rest) = rest := by
  by_cases hmark : Grammar.mark.isPrefixOf text = true
  · obtain ⟨behind, rfl⟩ := List.isPrefixOf_iff_prefix.1 hmark
    have hbehind (rest : List Char) : Grammar.behindMark (Grammar.mark ++ rest) = rest := by
      simp [Grammar.behindMark, Grammar.mark]
    refine ⟨Grammar.mark, by rw [hbehind], by decide, fun rest _ => hbehind rest⟩
  · have hself : Grammar.behindMark text = text := if_neg hmark
    rw [hself]
    refine ⟨[], rfl, rfl, fun rest hrest => if_neg ?_⟩
    intro hprefix
    apply hmark
    rw [List.nil_append, List.isPrefixOf_iff_prefix] at hprefix
    obtain ⟨behind, rfl⟩ := hprefix
    cases text with
    | nil => simp [Grammar.mark] at hrest
    | cons c cs =>
      rw [Grammar.mark, List.cons_append, List.head?_cons, List.head?_cons,
        Option.some.injEq] at hrest
      rw [← hrest]
      simp [Grammar.mark]

/-- **A rendered file is read again.** It has the package name and the code of the original, and
imports what this does with each substituted path in its place. -/
theorem exists_reread {text : List Char} {source : Source} (h : Source.parse? text = some source)
    (hlead : LeadingImports subs source) (hleads : LeadsInCode text subs source.imports) :
    ∃ text' ordered, ordered.Perm (edits text subs source.imports) ∧ Spliced 0 text ordered text' ∧
      (OneLine subs → SharesLead [] text text' ∧ ∃ source', Source.parse? text' = some source' ∧
        source'.package = source.package ∧
        (∃ trees : List Tree, source.code = trees.map (Tree.turned (byteLength text)) ∧
          source'.code = trees.map (Tree.turned (byteLength text'))) ∧
        ∀ p, p ∈ pairsOfImports source'.imports ↔
          p ∈ (pairsOfImports source.imports).map (substituted subs)) := by
  obtain ⟨found, last, hrepeats, hlast, rfl⟩ := Source.parse?_eq_some.1 h
  obtain ⟨placed, hplaced, rfl⟩ := Grammar.exists_placed hrepeats
  have hnumbered := numbered_declared (byteLength text) (placed.map (·.1))
  have hperm := hnumbered.edits_perm text subs
  rw [← flatMap_declared] at hperm
  obtain ⟨passed, htext, hpassed, hbehind⟩ := exists_passed text
  have hsize : byteLength (Grammar.behindMark text) ≤ byteLength text := by
    rw [congrArg byteLength htext, byteLength_append]
    omega
  have hfirst := importsLead_of_leading hplaced hsize hlead
  have hdeclared : ∀ d ∈ declared (byteLength text) 0 (placed.map (·.1)),
      d.LeadsInCode text subs := by
    apply leadsInCode_declared hnumbered
    rw [← flatMap_declared]
    exact hleads
  obtain ⟨rest', hspliced, hreads⟩ :=
    exists_exchanged hplaced hlast 0 htext hpassed hfirst hdeclared
  rw [← Nat.zero_add (byteLength passed)] at hspliced
  have hwhole := hspliced.prepend passed
  rw [← htext] at hwhole
  refine ⟨passed ++ rest', _, hperm.symm, hwhole, fun honeLine => ?_⟩
  obtain ⟨hlead', items, last', hrepeats', hlast', hrewritten⟩ := hreads honeLine
  refine ⟨?_, _, Source.parse?_eq_some.2 ⟨items, last', ?_, hlast', rfl⟩, ?_, ?_, ?_⟩
  · rw [htext]
    exact SharesLead.prepend hlead'
  · rw [hbehind rest' hlead'.head?]
    exact hrepeats'
  · rw [lastPackage_eq, lastPackage_eq, hrewritten.packages]
  · refine ⟨items.filterMap tree?, ?_, codeOf_eq _ _⟩
    rw [codeOf_eq, hrewritten.code]
  · intro p
    rw [pairsOfImports_imports, pairsOfImports_imports]
    exact hrewritten.imports p

/-- The rendered text is the one with the ranges of the edits exchanged. -/
theorem toList_render {text : String} {subs : Dictionary String} {imports : List Import}
    {ordered : List Edit} {chars : List Char} (hspliced : Spliced 0 text.toList ordered chars)
    (hordered : ordered.Perm (edits text.toList subs imports)) :
    (render text subs imports).toList = chars := by
  rw [render, String.toList_ofList]
  exact applyEdits_of_spliced hspliced hordered.symm

/-- **Conservation of imports.** A file whose substituted imports stand before its code is rendered as
a file that is accepted, with the same package name, and with exactly the imports of the original, each
substituted path in its place, provided that no replacement path contains a line break and that the
comment lines above each group that is written anew begin outside of comments. -/
theorem render_conserves_imports {text : String} {source : Source}
    (h : Source.parse? text.toList = some source) (subs : Dictionary String)
    (hlead : LeadingImports subs source) (honeLine : OneLine subs)
    (hleads : LeadsInCode text.toList subs source.imports) :
    ∃ source', Source.parse? (render text subs source.imports).toList = some source' ∧
      source'.package = source.package ∧
        ∀ name path, (∃ i ∈ source'.imports, i.name = name ∧ i.path = path) ↔
          ∃ i ∈ source.imports, i.name = name ∧ (subs.get? i.path).getD i.path = path := by
  obtain ⟨text', ordered, hordered, hspliced, hreads⟩ := exists_reread h hlead hleads
  obtain ⟨-, source', hsource', hpackage, -, himports⟩ := hreads honeLine
  rw [← toList_render hspliced hordered] at hsource'
  refine ⟨source', hsource', hpackage, fun name path => ?_⟩
  have hpair := himports (name, path)
  rw [pairsOfImports, pairsOfImports, List.map_map, List.mem_map, List.mem_map] at hpair
  simpa only [Function.comp_apply, substituted, Prod.mk.injEq] using hpair

theorem oneLine_oneSubstitution {path new : String} (h : '\n' ∉ new.toList) :
    OneLine (oneSubstitution path new) := by
  intro other found hfound
  rw [oneSubstitution, Dictionary.get?_insert] at hfound
  split at hfound
  · rw [Option.some.injEq] at hfound
    rwa [← hfound]
  · simp [Dictionary.get?, EmptyCollection.emptyCollection] at hfound

set_option maxRecDepth 10000 in
/-- The imports of `sortedBlock` are conserved: one of them moves, with the comment above it. -/
theorem sorted_block_conserved :
    ∃ source source', Source.parse? sortedBlock.toList = some source ∧
      Source.parse? (render sortedBlock (oneSubstitution "b" "c") source.imports).toList =
        some source' ∧ source'.package = source.package ∧
          ∀ name path, (∃ i ∈ source'.imports, i.name = name ∧ i.path = path) ↔
            ∃ i ∈ source.imports, i.name = name ∧
              ((oneSubstitution "b" "c").get? i.path).getD i.path = path := by
  have hcheck : (Source.parse? sortedBlock.toList).any (fun source =>
      decide (LeadingImports (oneSubstitution "b" "c") source ∧
        LeadsInCode sortedBlock.toList (oneSubstitution "b" "c") source.imports)) = true := by
    decide +kernel
  rw [Option.any_eq_true] at hcheck
  obtain ⟨source, hsource, hconditions⟩ := hcheck
  rw [decide_eq_true_eq] at hconditions
  obtain ⟨source', hsource', hpackage, himports⟩ := render_conserves_imports hsource
    _ hconditions.1 (oneLine_oneSubstitution (by decide)) hconditions.2
  exact ⟨source, source', hsource, hsource', hpackage, himports⟩

/-- A file with a line in a block comment that looks like a comment line. -/
def coveredLine : String := "package p\n\nimport (\n/* pinned\n// by hand */\n\"b\"\n\"a\"\n)\n"

set_option maxRecDepth 10000 in
/-- Where such a line moves, the comment goes on over another import, which is lost. -/
example : (Source.parse? coveredLine.toList).bind (fun source =>
    (Source.parse? (render coveredLine (oneSubstitution "b" "c") source.imports).toList).map
      fun source' => (source.imports.map (·.path), source'.imports.map (·.path))) =
        some (["b", "a"], ["c"]) := by
  decide +kernel

end PinnedImports.Imports
