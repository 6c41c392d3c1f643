import PinnedImports.Proofs.Imports.Cuts

/-!
# Where parsed imports stand

The imports that are read off an accepted file are well placed: their ranges are ranges of whole
characters, the literal in the specification spells the path, and the name is what stands in front of
it (`WellPlaced`). They are listed in the order of their ranges, which share no byte, and two of them
have the same number exactly if they stand within the same parentheses (`parse?_wellPlaced`).
-/

set_option autoImplicit false

namespace PinnedImports.Imports

open Text Go

/-! ## One import -/

/-- The second range lies in the first. -/
def Holds (outer inner : Span) : Prop := outer.start ≤ inner.start ∧ inner.stop ≤ outer.stop

/-- An import of a text tells what stands at its places: a specification, in it a literal that spells
the path, and in front of the literal the name with nothing but blanks behind it, or nothing. -/
structure WellPlaced (text : List Char) (i : Import) : Prop extends Located text i where
  stop_le_size : i.spec.stop ≤ byteLength text
  path : unquote? (String.ofList (i.literal.textIn text)) = some i.path
  name : ∀ name ∈ i.name, name ≠ "" ∧ ∃ gap, Blanks gap ∧
    (⟨i.spec.start, i.literal.start⟩ : Span).textIn text = name.toList ++ gap
  unnamed : i.name = none → i.literal.start = i.spec.start

theorem IsPlace.le {text : List Char} {n : Nat} (h : IsPlace 0 text n) : n ≤ byteLength text := by
  obtain ⟨before, after, rfl, rfl⟩ := h
  rw [byteLength_append]
  omega

/-- **What is spelled in a text is well placed.** -/
theorem Spelled.wellPlaced {text : List Char} {i : Import} (h : Spelled text i) :
    WellPlaced text i := by
  have hlocated := h.read.located
  obtain ⟨before, s, after, path, block, htext, rfl, hpath⟩ := h
  have hcut : text = before ++ (s.head ++ (s.literal ++ after)) := by
    rw [htext, SpecText.chars, List.append_assoc]
  refine { hlocated with
    stop_le_size := IsPlace.le hlocated.stop_place, path := ?_, name := ?_, unnamed := ?_ }
  · have hliteral : (importAt s (byteLength before) path block).literal.textIn text = s.literal := by
      apply slice_eq (a := before ++ s.head) (c := after)
      · rw [hcut, List.append_assoc]
      · simp only [importAt, byteLength_append]
      · simp only [importAt, SpecText.chars, byteLength_append]
        omega
    rw [hliteral]
    exact hpath
  · intro name hname
    obtain ⟨chars, hchars, rfl⟩ := Option.map_eq_some_iff.1 hname
    obtain ⟨c, cs, rfl, -⟩ := (s.isName chars hchars).start
    refine ⟨by simp [← String.toList_inj], s.gap, s.blanks, ?_⟩
    have hhead : s.head = c :: cs ++ s.gap := by rw [SpecText.head, hchars, Option.getD_some]
    rw [String.toList_ofList, ← hhead]
    exact slice_eq hcut rfl rfl
  · intro hname
    have hnone : s.name = none := Option.map_eq_none_iff.1 hname
    simp only [importAt, SpecText.head, hnone, s.gap_eq hnone, Option.getD_none, List.append_nil,
      byteLength_nil, Nat.add_zero]

/-! ## The imports of a declaration -/

/-- Imports whose specifications stand one behind the other, from byte `low` to byte `high`. -/
structure InTurn (low high : Nat) (imports : List Import) : Prop where
  within : ∀ i ∈ imports, Holds ⟨low, high⟩ i.spec
  lt : ∀ i ∈ imports, i.spec.start < i.spec.stop
  pairwise : imports.Pairwise fun a b => a.spec.stop ≤ b.spec.start

namespace InTurn

variable {low mid high : Nat} {a b imports : List Import}

theorem nil : InTurn low high [] := ⟨by simp, by simp, .nil⟩

theorem mono {low' high' : Nat} (h : InTurn low high imports) (hlow : low' ≤ low)
    (hhigh : high ≤ high') : InTurn low' high' imports where
  within i hi := ⟨hlow.trans (h.within i hi).1, (h.within i hi).2.trans hhigh⟩
  lt := h.lt
  pairwise := h.pairwise

theorem append (ha : InTurn low mid a) (hb : InTurn mid high b) (hlow : low ≤ mid)
    (hhigh : mid ≤ high) : InTurn low high (a ++ b) where
  within i hi := by
    rcases List.mem_append.1 hi with hi | hi
    · exact (ha.mono (Nat.le_refl _) hhigh).within i hi
    · exact (hb.mono hlow (Nat.le_refl _)).within i hi
  lt i hi := (List.mem_append.1 hi).elim (ha.lt i) (hb.lt i)
  pairwise := List.pairwise_append.2 ⟨ha.pairwise, hb.pairwise, fun i hi j hj =>
    (ha.within i hi).2.trans (hb.within j hj).1⟩

variable {text : List Char}

/-- The import of a specification stands where the specification does. -/
theorem of_placed {before after : List Char} {s : SpecText}
    (htext : text = before ++ (s.chars ++ after)) (block : Option Nat) :
    InTurn (byteLength before) (byteLength (before ++ s.chars))
      (importsOf (byteLength text) block [s.placed (byteLength after)]) := by
  have hsize : byteLength text = byteLength before + byteLength s.chars + byteLength after := by
    rw [htext, byteLength_append, byteLength_append, Nat.add_assoc]
  obtain ⟨c, cs, hchars, -⟩ := s.chars_start
  have hpos : 0 < byteLength s.chars := byteLength_pos (by simp [hchars])
  rw [importsOf_singleton, import?_placed s hsize block]
  cases unquote? (String.ofList s.literal) with
  | none => exact nil
  | some path =>
    rw [byteLength_append]
    refine ⟨?_, ?_, List.pairwise_singleton ..⟩
    all_goals
      intro i hi
      obtain rfl : i = importAt s (byteLength before) path block := by simpa using hi
    · exact ⟨Nat.le_refl _, Nat.le_refl _⟩
    · exact Nat.lt_add_of_pos_right hpos

/-- The imports of lines stand one behind the other in the lines. -/
theorem of_lines {whole : Bool} {n : Nat} {specs : List ImportSpec} {cs : List Char}
    (h : Lines whole n specs cs) (block : Option Nat) :
    ∀ {before after : List Char}, text = before ++ (cs ++ after) → n = byteLength after →
      InTurn (byteLength before) (byteLength (before ++ cs))
        (importsOf (byteLength text) block specs) := by
  induction h with
  | done =>
    intro before after _ _
    exact nil
  | @last gap blanks s _ _ _ =>
    intro before after htext hn
    have hcut : text = before ++ gap ++ (s.chars ++ (blanks ++ after)) := by
      rw [htext]
      simp
    rw [hn, ← byteLength_append]
    refine (of_placed hcut block).mono ?_ ?_
    all_goals
      simp only [byteLength_append]
      omega
  | @line gap closing cs s specs _ _ _ ih =>
    intro before after htext hn
    have hcut : text = before ++ gap ++ (s.chars ++ (closing ++ cs ++ after)) := by
      rw [htext]
      simp
    have hrest : text = before ++ (gap ++ (s.chars ++ closing)) ++ (cs ++ after) := by
      rw [htext]
      simp
    rw [importsOf_cons, hn, ← byteLength_append]
    -- The terminator belongs to neither of the two parts.
    refine ((of_placed hcut block).mono ?_ ?_).append ((ih hrest hn).mono (Nat.le_refl _) ?_) ?_ ?_
    all_goals
      simp only [byteLength_append]
      omega

/-- The imports of a declaration stand one behind the other in it. -/
theorem of_found {range : Span} {d : Declared} (h : Found (byteLength text) text range d) :
    InTurn range.start range.stop d.imports := by
  obtain ⟨before, chars, after, item, htext, hdecl, hstart, hstop, himports, -⟩ := h
  rw [himports, hstart, hstop]
  cases hdecl with
  | @single gap s _ _ =>
    have hcut : text = before ++ (importWord ++ gap) ++ (s.chars ++ after) := by
      rw [htext]
      simp
    refine (of_placed hcut d.block).mono ?_ ?_
    all_goals
      simp only [byteLength_append]
      omega
  | @block gap cs specs _ hlines =>
    have hcut : text = before ++ (importWord ++ (gap ++ ['('])) ++ (cs ++ ')' :: after) := by
      rw [htext]
      simp
    have hsize : (')' : Char).utf8Size = 1 := rfl
    have hafter : byteLength after + 1 = byteLength (')' :: after) := by
      rw [byteLength_cons, hsize, Nat.add_comm]
    refine (of_lines hlines d.block hcut hafter).mono ?_ ?_
    all_goals
      simp only [byteLength_append, byteLength_cons]
      omega

end InTurn

/-! ## The imports of a file -/

namespace Outline

variable {text : List Char} {source : Source} {ds : List (Span × Declared)}

theorem inTurn (h : Outline text source ds) {p : Span × Declared} (hp : p ∈ ds) :
    InTurn p.1.start p.1.stop p.2.imports := by
  obtain ⟨found⟩ := h.laid.found p hp
  exact .of_found found

theorem exists_declaration (h : Outline text source ds) {i : Import} (hi : i ∈ source.imports) :
    ∃ p ∈ ds, i ∈ p.2.imports := by
  rw [h.imports] at hi
  obtain ⟨d, hd, hi⟩ := List.mem_flatMap.1 hi
  obtain ⟨p, hp, rfl⟩ := List.mem_map.1 hd
  exact ⟨p, hp, hi⟩

theorem block_eq (h : Outline text source ds) {p : Span × Declared} (hp : p ∈ ds) {i : Import}
    (hi : i ∈ p.2.imports) : i.block = p.2.block :=
  h.numbered.block p.2 (List.mem_map_of_mem hp) i hi

/-- The specifications stand in the order of the imports and share no byte. -/
theorem ordered (h : Outline text source ds) :
    source.imports.Pairwise fun a b => a.spec.stop ≤ b.spec.start := by
  rw [h.imports, List.flatMap_map, List.pairwise_flatMap]
  refine ⟨fun p hp => (h.inTurn hp).pairwise, ?_⟩
  refine h.laid.pairwise.2.imp_of_mem fun {p q} hp hq hpq i hi j hj => ?_
  exact ((h.inTurn hp).within i hi).2.trans (hpq.trans ((h.inTurn hq).within j hj).1)

/-- The numbers of parentheses never decrease. -/
theorem numbers (h : Outline text source ds) :
    source.imports.Pairwise fun a b => ∀ m ∈ a.block, ∀ n ∈ b.block, m ≤ n := by
  have hincreasing := h.increasing
  rw [List.pairwise_filterMap, List.pairwise_map] at hincreasing
  rw [h.imports, List.flatMap_map, List.pairwise_flatMap]
  refine ⟨fun p hp => ?_, hincreasing.imp_of_mem fun {p q} hp hq hpq i hi j hj m hm n hn => ?_⟩
  · refine List.pairwise_of_forall_mem_list fun i hi j hj m hm n hn => ?_
    rw [h.block_eq hp hi] at hm
    rw [h.block_eq hp hj, hm, Option.mem_some_iff] at hn
    exact Nat.le_of_eq hn
  · rw [h.block_eq hp hi] at hm
    rw [h.block_eq hq hj] at hn
    exact Nat.le_of_lt (hpq m hm n hn)

/-- Of one number there is one declaration. -/
theorem eq_of_block (h : Outline text source ds) {p q : Span × Declared} (hp : p ∈ ds) (hq : q ∈ ds)
    {n : Nat} (hpn : p.2.block = some n) (hqn : q.2.block = some n) : p = q := by
  have hincreasing := h.increasing
  rw [List.pairwise_filterMap, List.pairwise_map] at hincreasing
  have hforward : ds.Pairwise fun p q => p.2.block = some n → q.2.block = some n → p = q :=
    hincreasing.imp fun {p q} hpq hp hq => absurd (hpq n hp n hq) (Nat.lt_irrefl n)
  have hbackward : ds.Pairwise (flip fun p q => p.2.block = some n → q.2.block = some n → p = q) :=
    hincreasing.imp fun {p q} hpq hq hp => absurd (hpq n hp n hq) (Nat.lt_irrefl n)
  exact List.Pairwise.forall_of_forall_of_flip (fun _ _ _ _ => rfl) hforward hbackward hp hq hpn hqn

/-- A range that holds an import is that of its declaration. -/
theorem eq_of_holds (h : Outline text source ds) {p q : Span × Declared} (hp : p ∈ ds) (hq : q ∈ ds)
    {i : Import} (hi : i ∈ p.2.imports) (hholds : Holds q.1 i.spec) : p = q := by
  have hwithin := (h.inTurn hp).within i hi
  have hlt := (h.inTurn hp).lt i hi
  rcases h.laid.apart hp hq with rfl | hpq | hqp
  · rfl
  · exact absurd (hlt.trans_le (hwithin.2.trans (hpq.trans hholds.1))) (Nat.lt_irrefl _)
  · exact absurd (hlt.trans_le (hholds.2.trans (hqp.trans hwithin.1))) (Nat.lt_irrefl _)

/-- A declaration with a number has parentheses. -/
theorem parenthesised (h : Outline text source ds) {p : Span × Declared} (hp : p ∈ ds) {n : Nat}
    (hn : p.2.block = some n) : Parenthesised text p.1 := by
  obtain ⟨before, chars, after, item, htext, hdecl, hstart, hstop, -, hparentheses⟩ :=
    h.laid.found p hp
  have hrange : p.1.textIn text = chars := slice_eq htext hstart (by rw [hstop, hstart])
  obtain ⟨specs, rfl⟩ := hparentheses n hn
  cases hdecl with
  | @block gap cs _ hgap _ => exact ⟨gap, cs, hgap, hrange⟩

/-- Two imports have the same number exactly if they stand within the same parentheses. -/
theorem same_block_iff (h : Outline text source ds) {i j : Import} (hi : i ∈ source.imports)
    (hj : j ∈ source.imports) :
    (∃ n, i.block = some n ∧ j.block = some n) ↔
      ∃ range ∈ importRanges text, Parenthesised text range ∧ Holds range i.spec ∧
        Holds range j.spec := by
  obtain ⟨p, hp, hip⟩ := h.exists_declaration hi
  obtain ⟨q, hq, hjq⟩ := h.exists_declaration hj
  rw [h.block_eq hp hip, h.block_eq hq hjq, ← h.ranges]
  constructor
  · rintro ⟨n, hpn, hqn⟩
    obtain rfl := h.eq_of_block hp hq hpn hqn
    exact ⟨p.1, List.mem_map_of_mem hp, h.parenthesised hp hpn, (h.inTurn hp).within i hip,
      (h.inTurn hp).within j hjq⟩
  · rintro ⟨_, hrange, hparentheses, hholds, hholds'⟩
    obtain ⟨r, hr, rfl⟩ := List.mem_map.1 hrange
    -- The ranges share no byte, so the two imports are of this declaration.
    obtain rfl := h.eq_of_holds hp hr hip hholds
    obtain rfl := h.eq_of_holds hq hr hjq hholds'
    obtain ⟨n, hn⟩ := Option.ne_none_iff_exists'.1 (h.parentheses q hr hparentheses)
    exact ⟨n, hn, hn⟩

end Outline

/-- **The imports of an accepted file are well placed.** Each tells what stands at its places. Their
specifications are listed in strictly increasing order and share no byte. The numbers of parentheses
never decrease along the list, and two imports have the same number exactly if they stand within the
parentheses of the same import declaration. -/
theorem parse?_wellPlaced {text : List Char} {source : Source}
    (h : Source.parse? text = some source) :
    (∀ i ∈ source.imports, WellPlaced text i) ∧
    source.imports.Pairwise
      (fun a b => a.spec.start < b.spec.start ∧ a.spec.stop ≤ b.spec.start) ∧
    source.imports.Pairwise (fun a b => ∀ m ∈ a.block, ∀ n ∈ b.block, m ≤ n) ∧
    ∀ i ∈ source.imports, ∀ j ∈ source.imports,
      ((∃ n, i.block = some n ∧ j.block = some n) ↔
        ∃ range ∈ importRanges text, Parenthesised text range ∧ Holds range i.spec ∧
          Holds range j.spec) := by
  obtain ⟨ds, houtline⟩ := exists_outline h
  have hplaced (i : Import) (hi : i ∈ source.imports) : WellPlaced text i :=
    (Spelled.of_parse h i hi).wellPlaced
  refine ⟨hplaced, houtline.ordered.imp_of_mem fun {a b} ha _ hab => ?_, houtline.numbers,
    fun i hi j hj => houtline.same_block_iff hi hj⟩
  have hspec := hplaced a ha
  have hstart := hspec.start_le
  have hlt := hspec.literal_lt
  have hstop := hspec.stop_le
  exact ⟨by omega, hab⟩

/-- A file with a byte order mark, a single import, two blocks, code between them, a comment within a
specification, and a literal that is no import path. -/
def scattered : String :=
  "\uFEFFpackage p\nimport f \"fmt\"\nimport (\n\t\"b\"\n\t. /* all */ `a`\n)\nvar x = 1\n" ++
    "import (\n\t\"\\n\"; _ \"c\"\n)\n"

set_option maxRecDepth 10000 in
/-- The imports of `scattered` are well placed, and those of the first block alone share a number. -/
theorem scattered_wellPlaced :
    ∃ source, Source.parse? scattered.toList = some source ∧
      source.imports.map (fun i => (i.name, i.path, i.spec.start, i.block)) =
        [(some "f", "fmt", 20, none), (none, "b", 38, some 0), (some ".", "a", 43, some 0),
          (some "_", "c", 87, some 1)] ∧
      (∀ i ∈ source.imports, WellPlaced scattered.toList i) ∧
      ∀ i ∈ source.imports, ∀ j ∈ source.imports,
        (∃ n, i.block = some n ∧ j.block = some n) →
          ∃ range ∈ importRanges scattered.toList, Parenthesised scattered.toList range ∧
            Holds range i.spec ∧ Holds range j.spec := by
  have hcheck : (Source.parse? scattered.toList).any (fun source => decide
      (source.imports.map (fun i => (i.name, i.path, i.spec.start, i.block)) =
        [(some "f", "fmt", 20, none), (none, "b", 38, some 0), (some ".", "a", 43, some 0),
          (some "_", "c", 87, some 1)])) = true := by
    decide +kernel
  rw [Option.any_eq_true] at hcheck
  obtain ⟨source, hsource, himports⟩ := hcheck
  rw [decide_eq_true_eq] at himports
  obtain ⟨hplaced, -, -, hblocks⟩ := parse?_wellPlaced hsource
  exact ⟨source, hsource, himports, hplaced, fun i hi j hj => (hblocks i hi j hj).1⟩

end PinnedImports.Imports
