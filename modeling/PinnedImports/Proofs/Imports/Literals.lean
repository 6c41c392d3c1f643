import PinnedImports.Proofs.Go.Quoting
import PinnedImports.Proofs.Imports.Laid

/-!
# Substitution in place

Where only string literals change, an import declaration stays one: the exchanged literals give a
declaration with the same names and with each substituted path in its place
(`exists_spliced_decl`).
-/

set_option autoImplicit false

namespace PinnedImports.Imports

open Text Go

/-! ## What a declaration imports -/

/-- The name and the path that a specification imports; none if its literal is no import path. -/
def pair? (v : ImportSpec) : Option (Option String × String) :=
  (unquote? v.text).map fun path => (v.name, path)

/-- The names and paths that specifications import. -/
def pairsOf (specs : List ImportSpec) : List (Option String × String) := specs.filterMap pair?

/-- The name and path of an import behind the substitutions. -/
def substituted (subs : Dictionary String) (pair : Option String × String) :
    Option String × String :=
  (pair.1, (subs.get? pair.2).getD pair.2)

/-- No replacement path contains a line break. -/
def OneLine (subs : Dictionary String) : Prop :=
  ∀ path new, subs.get? path = some new → '\n' ∉ new.toList

theorem pairsOf_append (a b : List ImportSpec) : pairsOf (a ++ b) = pairsOf a ++ pairsOf b :=
  List.filterMap_append

theorem pairsOf_importsOf (size : Nat) (block : Option Nat) (specs : List ImportSpec) :
    (importsOf size block specs).map (fun i => (i.name, i.path)) = pairsOf specs := by
  rw [importsOf, List.map_filterMap, pairsOf]
  refine List.filterMap_congr fun v _ => ?_
  rw [ImportSpec.import?, pair?, Option.map_map]
  rfl

theorem pairsOf_idle {specs : List ImportSpec} (h : Idle specs) : pairsOf specs = [] := by
  refine List.filterMap_eq_nil_iff.2 fun v hv => ?_
  rw [pair?, h v hv]
  rfl

variable (subs : Dictionary String) {size offset : Nat} (block : Option Nat)

/-- The name and the path that a specification in a text imports. -/
def textPair? (s : SpecText) : Option (Option String × String) :=
  (unquote? (String.ofList s.literal)).map fun path => (s.name.map String.ofList, path)

theorem pair?_placed (s : SpecText) (n : Nat) : pair? (s.placed n) = textPair? s := rfl

/-- The specification with the literal of another path. -/
def quoted (s : SpecText) {path : String} (h : '\n' ∉ path.toList) : SpecText :=
  { s with literal := (quote path).toList, isLiteral := isLiteral_quote h }

theorem quoted_chars (s : SpecText) {path : String} (h : '\n' ∉ path.toList) :
    (quoted s h).chars = s.head ++ (quote path).toList := rfl

theorem quoted_pair? (s : SpecText) {path : String} (h : '\n' ∉ path.toList) :
    textPair? (quoted s h) = some (s.name.map String.ofList, path) := by
  rw [textPair?, quoted, String.ofList_toList, unquote?_quote]
  rfl

/-! ## Specifications -/

/-- The literal of a specification is exchanged for the one of the new path. -/
theorem exists_spliced_spec (s : SpecText) {n : Nat}
    (h : size = offset + byteLength s.chars + n) :
    ∃ cs, Spliced offset s.chars
        ((importsOf size block [s.placed n]).filterMap (literalEdit? subs)) cs ∧
      (OneLine subs → ∃ t : SpecText, cs = t.chars ∧ t.head = s.head ∧
        textPair? t = (textPair? s).map (substituted subs)) := by
  have himport := import?_placed s h block
  cases hpath : unquote? (String.ofList s.literal) with
  | none =>
    -- A literal that is no import path stays, and it imports nothing.
    rw [hpath] at himport
    refine ⟨s.chars, ?_, fun _ => ⟨s, rfl, rfl, ?_⟩⟩
    · rw [importsOf_cons_none himport]
      exact .keep
    · rw [textPair?, hpath]
      rfl
  | some path =>
    rw [hpath] at himport
    have hedits : (importsOf size block [s.placed n]).filterMap (literalEdit? subs) =
        ((subs.get? path).map fun new =>
          (⟨offset + byteLength s.head, offset + byteLength s.chars, (quote new).toList⟩ :
            Edit)).toList := by
      rw [importsOf_cons_some himport, importsOf_nil, List.filterMap_cons, literalEdit?]
      simp only [importAt, List.filterMap_nil]
      cases subs.get? path <;> rfl
    rw [hedits]
    cases hnew : subs.get? path with
    | none =>
      refine ⟨s.chars, .keep, fun _ => ⟨s, rfl, rfl, ?_⟩⟩
      rw [textPair?, hpath, Option.map_some, Option.map_some, substituted, hnew]
      rfl
    | some new =>
      -- The edit is from the end of the head to the end of the specification: the literal.
      obtain ⟨c, cs, hliteral, -⟩ := s.isLiteral.head
      refine ⟨s.head ++ (quote new).toList, ?_, fun hline =>
        ⟨quoted s (hline path new hnew), rfl, rfl, ?_⟩⟩
      · have hne : s.literal ≠ [] := by
          rw [hliteral]
          simp
        have hstop : offset + byteLength s.chars =
            offset + byteLength s.head + byteLength s.literal := by
          rw [SpecText.chars, byteLength_append, Nat.add_assoc]
        rw [hstop]
        exact .exchange hne
      · rw [quoted_pair?, textPair?, hpath, Option.map_some, Option.map_some, substituted, hnew]
        rfl

theorem importsOf_append (size : Nat) (a b : List ImportSpec) :
    importsOf size block (a ++ b) = importsOf size block a ++ importsOf size block b :=
  List.filterMap_append

theorem importsOf_cons (size : Nat) (v : ImportSpec) (specs : List ImportSpec) :
    importsOf size block (v :: specs) = importsOf size block [v] ++ importsOf size block specs :=
  importsOf_append block size [v] specs

theorem pairsOf_cons_placed {subs : Dictionary String} {s t : SpecText} {n m : Nat}
    {specs specs' : List ImportSpec}
    (h : textPair? t = (textPair? s).map (substituted subs))
    (hrest : pairsOf specs' = (pairsOf specs).map (substituted subs)) :
    pairsOf (t.placed m :: specs') = (pairsOf (s.placed n :: specs)).map (substituted subs) := by
  rw [pairsOf, pairsOf, List.filterMap_cons, List.filterMap_cons, pair?_placed, pair?_placed, h]
  cases textPair? s with
  | none => exact hrest
  | some pair => exact congrArg (substituted subs pair :: ·) hrest

/-! ## Declarations -/

/-- Exchanged literals leave lines of specifications. -/
theorem exists_spliced_lines {whole : Bool} {after : Nat} {specs : List ImportSpec}
    {cs : List Char} (h : Lines whole after specs cs) :
    ∀ {offset : Nat}, size = offset + byteLength cs + after →
      ∃ cs', Spliced offset cs
          ((importsOf size block specs).filterMap (literalEdit? subs)) cs' ∧
        (OneLine subs → ∀ n, ∃ specs', Lines whole n specs' cs' ∧
          pairsOf specs' = (pairsOf specs).map (substituted subs)) := by
  induction h with
  | done hblanks => exact fun _ => ⟨_, .keep, fun _ n => ⟨[], .done hblanks, rfl⟩⟩
  | @last gap blanks s hwhole hgap hblanks =>
    intro offset hsize
    simp only [byteLength_append] at hsize
    have hplace : size =
        offset + byteLength gap + byteLength s.chars + (byteLength blanks + after) := by omega
    obtain ⟨cs', hspliced, hspec⟩ := exists_spliced_spec subs block s hplace
    refine ⟨gap ++ (cs' ++ blanks), ?_, fun hline n => ?_⟩
    · exact (hspliced.behind blanks).prepend gap
    · obtain ⟨t, rfl, -, hpair⟩ := hspec hline
      exact ⟨_, .last hwhole hgap hblanks, pairsOf_cons_placed hpair rfl⟩
  | @line gap closing cs s specs hgap hclosing _ ih =>
    intro offset hsize
    simp only [byteLength_append] at hsize
    have hplace : size = offset + byteLength gap + byteLength s.chars +
        (byteLength (closing ++ cs) + after) := by
      rw [byteLength_append]
      omega
    have hrest : size = offset + byteLength gap + byteLength s.chars + byteLength closing +
        byteLength cs + after := by omega
    obtain ⟨cs', hspliced, hspec⟩ := exists_spliced_spec subs block s hplace
    obtain ⟨rest', hrest, hlines⟩ := ih hrest
    refine ⟨gap ++ (cs' ++ (closing ++ rest')), ?_, fun hline n => ?_⟩
    · rw [importsOf_cons, List.filterMap_append]
      exact (hspliced.append (hrest.prepend closing)).prepend gap
    · obtain ⟨t, rfl, -, hpair⟩ := hspec hline
      obtain ⟨specs', hlines', hpairs⟩ := hlines hline n
      exact ⟨_, .line hgap hclosing hlines', pairsOf_cons_placed hpair hpairs⟩

/-- The end of a word does not depend on the literal of a specification. -/
theorem endsWord_spec {gap : List Char} {s t : SpecText} (hhead : t.head = s.head)
    (h : EndsWord (gap ++ s.chars)) : EndsWord (gap ++ t.chars) := by
  rw [SpecText.chars, ← List.append_assoc] at h ⊢
  rw [hhead]
  by_cases hnil : gap ++ s.head = []
  · -- The literal itself ends the word, whatever it is.
    rw [hnil]
    simpa using t.isLiteral.endsWord []
  · exact (EndsWord.of_append hnil h).append hnil t.literal

/-- **Exchanged literals leave an import declaration, with the substituted paths.** -/
theorem exists_spliced_decl {after : Nat} {item : Item} {cs : List Char}
    (h : DeclText after item cs) (hsize : size = offset + byteLength cs + after) :
    ∃ cs', Spliced offset cs
        ((importsOf size block (specsOf item)).filterMap (literalEdit? subs)) cs' ∧
      (OneLine subs → ∀ n, ∃ item', DeclText n item' cs' ∧
        pairsOf (specsOf item') = (pairsOf (specsOf item)).map (substituted subs)) := by
  cases h with
  | @single gap s hgap hends =>
    simp only [byteLength_append] at hsize
    have hplace : size =
        offset + byteLength importWord + byteLength gap + byteLength s.chars + after := by omega
    obtain ⟨cs', hspliced, hspec⟩ := exists_spliced_spec subs block s hplace
    refine ⟨importWord ++ (gap ++ cs'), (hspliced.prepend gap).prepend importWord,
      fun hline n => ?_⟩
    obtain ⟨t, rfl, hhead, hpair⟩ := hspec hline
    exact ⟨_, .single hgap (endsWord_spec hhead hends), pairsOf_cons_placed hpair rfl⟩
  | @block gap inside specs hgap hlines =>
    have hparen : ('(' : Char).utf8Size = 1 := rfl
    have hclose : (')' : Char).utf8Size = 1 := rfl
    simp only [byteLength_append, byteLength_cons, byteLength_nil, hparen, hclose] at hsize
    have hplace : size = offset + byteLength importWord + byteLength gap + 1 +
        byteLength inside + (after + 1) := by omega
    obtain ⟨cs', hspliced, hlines'⟩ := exists_spliced_lines subs block hlines hplace
    refine ⟨importWord ++ (gap ++ '(' :: (cs' ++ [')'])), ?_, fun hline n => ?_⟩
    · exact (((hspliced.behind [')']).prepend ['(']).prepend gap).prepend importWord
    · obtain ⟨specs', hdecl, hpairs⟩ := hlines' hline (n + 1)
      exact ⟨.importedBlock specs', .block hgap hdecl, hpairs⟩

end PinnedImports.Imports
