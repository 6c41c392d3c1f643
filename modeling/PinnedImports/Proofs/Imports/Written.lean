import PinnedImports.Proofs.Imports.Conservation
import PinnedImports.Proofs.Imports.Substitution

/-!
# Literals in place of others

Where an import path is substituted, the literal of the new path takes the place of the old one. It is
read back as the new path, under the name that stands in front of it and whatever follows it, unless the
path has a line break. Then no specification is read there at all (`readImport?_quote`).

A new path is a pinned path with what the old one has behind its repository. So it has a line break only
if the pinned path has one, or if the old path stands between backquotes, where a path may go on over
several lines (`Spelled.raw_of_newline`).
-/

set_option autoImplicit false

namespace PinnedImports.Imports

open Text Go

/-! ## One specification -/

/-- The name and the path of the specification that is read at the front of a text, and the rest. -/
def readImport? (text : List Char) : Option (Option String × String × List Char) :=
  (Grammar.importSpec.read text).bind fun r =>
    (unquote? r.1.text).map fun path => (r.1.name, path, r.2)

/-- The literal of a path is read behind any head, unless the path has a line break. -/
theorem readImport?_quote (s : SpecText) (path : String) (rest : List Char) :
    readImport? (s.head ++ (quote path).toList ++ rest) =
      if '\n' ∈ path.toList then none else some (s.name.map String.ofList, path, rest) := by
  have hquote : (quote path).toList = '"' :: (escape path.toList ++ ['"']) := by simp [quote]
  have htoken := stringLength_quote path rest
  have hread := Parser.read_importSpec_head .nil s (.inl rfl) (escape path.toList ++ ['"'] ++ rest)
  -- The specification is read exactly if a literal is, and where that ends is known.
  rw [List.nil_append, ← List.cons_append, ← hquote, htoken] at hread
  rw [readImport?, List.append_assoc, hread]
  split
  · rfl
  · simp only [Option.map_some, Option.bind_some, List.take_left, List.drop_left,
      String.ofList_toList, unquote?_quote]

/-- The specification of an import with the literal of another path. -/
def exchanged (text : List Char) (i : Import) (path : String) : List Char :=
  slice i.spec.start i.literal.start text ++ (quote path).toList

theorem exchanged_importAt (before after : List Char) (s : SpecText) (path : String)
    (block : Option Nat) (new : String) :
    exchanged (before ++ (s.chars ++ after)) (importAt s (byteLength before) path block) new =
      s.head ++ (quote new).toList := by
  have hcut : before ++ (s.chars ++ after) = before ++ (s.head ++ (s.literal ++ after)) := by
    rw [SpecText.chars, List.append_assoc]
  exact congrArg (· ++ (quote new).toList) (slice_eq hcut rfl rfl)

namespace Spelled

variable {text : List Char} {i : Import} {subs : Dictionary String} {new : String}

/-- A spelled import stands in the text as a specification with its name and its path. -/
theorem exists_specText (h : Spelled text i) :
    ∃ s : SpecText, i.name = s.name.map String.ofList ∧ i.literal.textIn text = s.literal ∧
      unquote? (String.ofList s.literal) = some i.path ∧
        ∀ path, exchanged text i path = s.head ++ (quote path).toList := by
  obtain ⟨before, s, after, path, block, rfl, rfl, hpath⟩ := h
  refine ⟨s, rfl, ?_, hpath, exchanged_importAt before after s path block⟩
  apply slice_eq (a := before ++ s.head) (c := after)
  · rw [SpecText.chars]
    simp
  · rw [importAt, byteLength_append]
  · simp only [importAt, SpecText.chars, byteLength_append]
    omega

/-- Where only the literal changes, the specification with the new one takes the place of the old. -/
theorem applyEdits_literalEdit? (h : Spelled text i) (hnew : subs.get? i.path = some new) :
    ∃ before after, text = before ++ (i.spec.textIn text ++ after) ∧
      applyEdits text (literalEdit? subs i).toList =
        before ++ (exchanged text i new ++ after) := by
  obtain ⟨before, s, after, path, block, rfl, rfl, -⟩ := h
  have hspec : (importAt s (byteLength before) path block).spec.textIn
      (before ++ (s.chars ++ after)) = s.chars := slice_eq rfl rfl rfl
  have hedit : literalEdit? subs (importAt s (byteLength before) path block) =
      some ⟨byteLength before + byteLength s.head, byteLength before + byteLength s.chars,
        (quote new).toList⟩ := by
    rw [literalEdit?, hnew]
    rfl
  have hcut : before ++ (s.chars ++ after) = before ++ s.head ++ (s.literal ++ after) := by
    rw [SpecText.chars]
    simp
  obtain ⟨c, cs, hliteral, -⟩ := s.isLiteral.head
  have hspliced : Spliced 0 (before ++ s.head ++ (s.literal ++ after))
      [⟨byteLength before + byteLength s.head, byteLength before + byteLength s.chars,
        (quote new).toList⟩] (before ++ s.head ++ ((quote new).toList ++ after)) := by
    refine .edit (by simp [hliteral]) ?_ ?_ .keep
    · rw [byteLength_append, Nat.zero_add]
    · simp only [SpecText.chars, byteLength_append, Nat.add_assoc]
  refine ⟨before, after, by rw [hspec], ?_⟩
  rw [exchanged_importAt, hedit, Option.toList_some, hcut, applyEdits_of_spliced hspliced (.refl _)]
  simp

/-- On a line of its own the specification is written with the new literal, and what stands around it on
the line stays. -/
theorem exists_line (h : Spelled text i) {line : SpecLine} (hline : specLine? text i = some line)
    (hnew : subs.get? i.path = some new) :
    ∃ indent tail, (∀ c ∈ indent, isBlank c = true) ∧ Bare tail ∧
      (Entry.ofSpec text subs (i, line)).line = indent ++ (exchanged text i new ++ tail) := by
  obtain ⟨before, s, after, path, block, rfl, rfl, -⟩ := h
  obtain ⟨parts, rfl⟩ := exists_lineParts rfl rfl hline
  refine ⟨parts.indent, parts.tail, fun c hc => (parts.indent_blank c hc).1, parts.tail_bare, ?_⟩
  have hcut : before ++ (s.chars ++ after) = unlines parts.above ++ unlines parts.comment ++
      (parts.indent ++ s.head ++ (s.literal ++ after)) := by
    refine (congrArg (· ++ (s.chars ++ after)) parts.before_eq).trans ?_
    rw [SpecText.chars]
    simp
  have htail : before ++ (s.chars ++ after) = before ++ s.chars ++ (parts.tail ++ parts.more) := by
    rw [← parts.behind_eq, List.append_assoc]
  -- The old literal ends the specification, so behind it only the rest of the line is left.
  have hhead : slice (parts.line (byteLength s.chars)).start (byteLength before + byteLength s.head)
      (before ++ (s.chars ++ after)) = parts.indent ++ s.head := by
    apply slice_eq hcut
    · rw [LineParts.line, byteLength_append]
    · rw [congrArg byteLength parts.before_eq]
      simp only [LineParts.line, byteLength_append, Nat.add_assoc]
  have hbehind : slice (byteLength before + byteLength s.chars)
      (parts.line (byteLength s.chars)).stop (before ++ (s.chars ++ after)) = parts.tail :=
    slice_eq htail (byteLength_append ..).symm rfl
  rw [Entry.ofSpec, hnew, exchanged_importAt]
  simp only [importAt, hhead, hbehind, List.append_assoc]

end Spelled

/-! ## New paths -/

/-- A new path is a pinned one with the rest of the old path behind it. -/
theorem exists_below {pins : Dictionary String} {disabled : StringSet} {imports : List Import}
    {path new : String} (h : (substitutions pins disabled imports).get? path = some new) :
    ∃ key pinned below, pins.get? key = some pinned ∧ path = key ++ below ∧
      new = pinned ++ below := by
  obtain ⟨-, repository, pinned, -, hpinned, hreplace⟩ :=
    substitute?_eq_some.1 (get?_substitutions.1 h).2
  obtain ⟨-, below, hpath, hnew⟩ := replaceKey?_eq_some.1 hreplace
  exact ⟨repository.key, pinned, below, hpinned, hpath, hnew⟩

/-- What is behind the repository has a line break only between backquotes. -/
theorem Spelled.raw_of_newline {text : List Char} {i : Import} (h : Spelled text i)
    {key below : String} (hpath : i.path = key ++ below) (hmem : '\n' ∈ below.toList) :
    (i.literal.textIn text).head? = some '`' := by
  obtain ⟨s, -, hliteral, hunquote, -⟩ := h.exists_specText
  rw [hliteral]
  apply s.isLiteral.raw_of_newline hunquote
  rw [hpath, String.toList_append]
  exact List.mem_append_right _ hmem

/-! ## Written files -/

/-- How the literal of a new path is written for an import, and what is read of it. -/
structure WrittenAs (text : List Char) (subs : Dictionary String) (i : Import) (new : String) :
    Prop where
  /-- Where only the literal changes, the specification with the new one takes the place of the
  old. -/
  alone : ∃ before after, text = before ++ (i.spec.textIn text ++ after) ∧
    applyEdits text (literalEdit? subs i).toList = before ++ (exchanged text i new ++ after)
  /-- In a group that is written anew what stands around it on its line stays. -/
  grouped : ∀ line, specLine? text i = some line → ∃ indent tail,
    (∀ c ∈ indent, isBlank c = true) ∧ Bare tail ∧
      (Entry.ofSpec text subs (i, line)).line = indent ++ (exchanged text i new ++ tail)
  interpreted : Interpreted (quote new)
  unquoted : unquote? (quote new) = some new
  /-- The literal is one token. -/
  token : ∀ rest, stringLength ((quote new).toList ++ rest) =
    if '\n' ∈ new.toList then none else some (quote new).toList.length
  /-- The specification is read as an import of the new path. -/
  read : ∀ rest, readImport? (exchanged text i new ++ rest) =
    if '\n' ∈ new.toList then none else some (i.name, new, rest)

theorem Spelled.writtenAs {text : List Char} {i : Import} (h : Spelled text i)
    {subs : Dictionary String} {new : String} (hnew : subs.get? i.path = some new) :
    WrittenAs text subs i new where
  alone := h.applyEdits_literalEdit? hnew
  grouped _ hline := h.exists_line hline hnew
  interpreted := (interpreted_iff.2 rfl).1
  unquoted := unquote?_quote new
  token := stringLength_quote new
  read rest := by
    obtain ⟨s, hname, -, -, hexchanged⟩ := h.exists_specText
    rw [hexchanged, readImport?_quote, hname]

/-- **The literal of a new path is read back, unless the path has a line break.** It is written between
double quotes with every other double quote escaped, and the specification in which it takes the place of
the old literal is read as an import of the new path under the old name, whatever follows it. A line
break is written as it is, and then neither the literal nor the specification is read. It comes from the
pinned path or from an old path between backquotes.

So a file without such paths is not turned into one with a syntax error: where its substituted imports
stand before its code and the comment lines above each group that is written anew begin outside of
comments, it is rendered as a file that imports each new path under the old name. -/
theorem substituted_literals_read_back {text : String} {source : Source}
    (h : Source.parse? text.toList = some source) {pins subs : Dictionary String}
    {disabled : StringSet} (hsubs : subs = substitutions pins disabled source.imports) :
    (∀ i ∈ source.imports, ∀ new, subs.get? i.path = some new →
      WrittenAs text.toList subs i new ∧
        ∃ key pinned below, pins.get? key = some pinned ∧ i.path = key ++ below ∧
          new = pinned ++ below ∧
          ('\n' ∈ below.toList → (i.literal.textIn text.toList).head? = some '`')) ∧
    ((∀ i ∈ source.imports, ∀ new, subs.get? i.path = some new → '\n' ∉ new.toList) →
      LeadingImports subs source → LeadsInCode text.toList subs source.imports →
        ∃ source', Source.parse? (render text subs source.imports).toList = some source' ∧
          ∀ i ∈ source.imports, ∀ new, subs.get? i.path = some new →
            ∃ i' ∈ source'.imports, i'.name = i.name ∧ i'.path = new) := by
  constructor
  · intro i hi new hnew
    have hspelled := Spelled.of_parse h i hi
    refine ⟨hspelled.writtenAs hnew, ?_⟩
    rw [hsubs] at hnew
    obtain ⟨key, pinned, below, hpinned, hpath, hbelow⟩ := exists_below hnew
    exact ⟨key, pinned, below, hpinned, hpath, hbelow, hspelled.raw_of_newline hpath⟩
  · intro hlines hlead hleads
    have honeLine : OneLine subs := by
      -- Only paths of imports are substituted, and for these it is given.
      intro path new hnew
      have hmem := hnew
      rw [hsubs] at hmem
      obtain ⟨⟨i, hi, rfl⟩, -⟩ := get?_substitutions.1 hmem
      exact hlines i hi new hnew
    obtain ⟨chars, ordered, hordered, hspliced, hreads⟩ := exists_reread h hlead hleads
    obtain ⟨-, source', hsource', -, -, himports⟩ := hreads honeLine
    rw [← toList_render hspliced hordered] at hsource'
    refine ⟨source', hsource', fun i hi new hnew => ?_⟩
    have hpair : (i.name, new) ∈ pairsOfImports source'.imports := by
      rw [himports]
      refine List.mem_map.2 ⟨(i.name, i.path), List.mem_map_of_mem hi, ?_⟩
      rw [substituted, hnew, Option.getD_some]
    obtain ⟨i', hi', heq⟩ := List.mem_map.1 hpair
    rw [Prod.mk.injEq] at heq
    exact ⟨i', hi', heq⟩

/-- One pinned repository. -/
def pinnedGear : Dictionary String := .ofList [("github.com/acme/gear", "gopkgs.com/gear.v1")]

/-- A file that imports a package between backquotes. -/
def rawImport : String := "package p\n\nimport g `github.com/acme/gear/cog`\n"

set_option maxRecDepth 10000 in
/-- The package between backquotes is written between double quotes, and read back under its name. -/
theorem raw_import_read_back :
    ∃ source source', Source.parse? rawImport.toList = some source ∧
      Source.parse? (render rawImport (substitutions pinnedGear ∅ source.imports)
        source.imports).toList = some source' ∧
      ∃ i ∈ source.imports, (i.literal.textIn rawImport.toList).head? = some '`' ∧
        (∀ rest, readImport? (exchanged rawImport.toList i "gopkgs.com/gear.v1/cog" ++ rest) =
          some (some "g", "gopkgs.com/gear.v1/cog", rest)) ∧
        ∃ i' ∈ source'.imports, i'.name = some "g" ∧ i'.path = "gopkgs.com/gear.v1/cog" := by
  have hcheck : (Source.parse? rawImport.toList).any (fun source =>
      decide (LeadingImports (substitutions pinnedGear ∅ source.imports) source ∧
        LeadsInCode rawImport.toList (substitutions pinnedGear ∅ source.imports) source.imports) &&
      source.imports.any (fun i => i.name == some "g" &&
        (substitutions pinnedGear ∅ source.imports).get? i.path == some "gopkgs.com/gear.v1/cog" &&
        (i.literal.textIn rawImport.toList).head? == some '`') &&
      source.imports.all (fun i =>
        ((substitutions pinnedGear ∅ source.imports).get? i.path).all (!·.toList.contains '\n')))
      = true := by
    decide +kernel
  rw [Option.any_eq_true] at hcheck
  obtain ⟨source, hsource, hcheck⟩ := hcheck
  simp only [Bool.and_eq_true, decide_eq_true_eq, List.any_eq_true, beq_iff_eq,
    List.all_eq_true] at hcheck
  obtain ⟨⟨⟨hlead, hleads⟩, i, hi, ⟨hname, hnew⟩, hraw⟩, hlines⟩ := hcheck
  obtain ⟨hwritten, hrendered⟩ :=
    substituted_literals_read_back hsource
      (rfl : _ = substitutions pinnedGear ∅ source.imports)
  obtain ⟨source', hsource', himports⟩ := hrendered (fun j hj new hj' => by
    have hline := hlines j hj
    rw [hj'] at hline
    simpa using hline) hlead hleads
  obtain ⟨hwritten, -⟩ := hwritten i hi _ hnew
  obtain ⟨i', hi', hsame, hpath⟩ := himports i hi _ hnew
  refine ⟨source, source', hsource, hsource', i, hi, hraw, fun rest => ?_, i', hi', ?_, hpath⟩
  · rw [hwritten.read, if_neg (by decide), hname]
  · rw [hsame, hname]

/-- A file that imports a path with a line break. -/
def brokenImport : String := "package p\n\nimport `github.com/acme/gear/cog\nwheel`\n"

set_option maxRecDepth 10000 in
/-- It is accepted, and its rendering is not. -/
example : (Source.parse? brokenImport.toList).map (fun source =>
    (Source.parse? (render brokenImport (substitutions pinnedGear ∅ source.imports)
      source.imports).toList).isSome) = some false := by
  decide +kernel

end PinnedImports.Imports
