import PinnedImports.Proofs.Imports.Literals

/-!
# Groups written anew

A group that is written anew is a list of entries: sorted, joined where two of them import the same
path under the same name, and set one below the other. None of these steps loses an import or adds
one (`mem_pairs_joinSame`), so where each entry is a comment and the line of one specification, the
text of the group is again lines of specifications that import what the entries do
(`exists_lines_groupText`).
-/

set_option autoImplicit false

namespace PinnedImports.Imports

open Text Go

/-! ## Entries -/

namespace Entry

/-- The name and the path that an entry imports. -/
def pair (e : Entry) : Option String × String := (e.name, e.path)

/-- The text of an entry is a comment and the line of a specification that imports what the entry
does. -/
structure Reads (e : Entry) : Prop where
  comment : Blanks e.comment
  line : ∃ (indent tail : List Char) (s : SpecText), Blanks indent ∧ Closing (tail ++ ['\n']) ∧
    e.line = indent ++ (s.chars ++ tail) ∧ textPair? s = some e.pair

theorem same_iff {a b : Entry} : a.same b = true ↔ a.pair = b.pair := by
  rw [same, Bool.and_eq_true, beq_iff_eq, beq_iff_eq, pair, pair, Prod.mk.injEq, and_comm]

/-- Joined entries import what the entries before them import. -/
theorem mem_pairs_go (p : Option String × String) (entries : List Entry) :
    ∀ first : Entry, p ∈ (joinSame.go first entries).map pair ↔
      p = first.pair ∨ p ∈ entries.map pair := by
  induction entries with
  | nil =>
    intro first
    rw [joinSame.go, List.map_singleton, List.mem_singleton, List.map_nil]
    simp
  | cons next entries ih =>
    intro first
    rw [joinSame.go]
    split
    · rename_i hsame
      have hpair : next.pair = first.pair := (same_iff.1 hsame).symm
      rw [ih, List.map_cons, List.mem_cons, hpair, ← or_assoc, or_self]
      rfl
    · rw [List.map_cons, List.mem_cons, ih, List.map_cons, List.mem_cons]

/-- **Joining loses no import and adds none.** -/
theorem mem_pairs_joinSame (p : Option String × String) (entries : List Entry) :
    p ∈ (joinSame entries).map pair ↔ p ∈ entries.map pair := by
  cases entries with
  | nil => exact Iff.rfl
  | cons first entries =>
    rw [joinSame, mem_pairs_go, List.map_cons, List.mem_cons]

theorem Reads.go {entries : List Entry} (h : ∀ e ∈ entries, e.Reads) :
    ∀ {first : Entry}, first.Reads → ∀ e ∈ joinSame.go first entries, e.Reads := by
  induction entries with
  | nil =>
    intro first hfirst e he
    rw [joinSame.go, List.mem_singleton] at he
    rwa [he]
  | cons next entries ih =>
    intro first hfirst
    have hnext := h next (List.mem_cons_self ..)
    have hentries : ∀ e ∈ entries, e.Reads := fun e he => h e (List.mem_cons_of_mem _ he)
    rw [joinSame.go]
    split
    · -- The joined entry has the line of the first one and the comments of both.
      apply ih hentries
      exact ⟨hfirst.comment.append hnext.comment, hfirst.line⟩
    · intro e he
      rcases List.mem_cons.1 he with rfl | he
      · exact hfirst
      · exact ih hentries hnext e he

theorem Reads.joinSame {entries : List Entry} (h : ∀ e ∈ entries, e.Reads) :
    ∀ e ∈ joinSame entries, e.Reads := by
  cases entries with
  | nil => exact h
  | cons first entries =>
    exact Reads.go (fun e he => h e (List.mem_cons_of_mem _ he)) (h first (List.mem_cons_self ..))

theorem joinSame_ne_nil {entries : List Entry} (h : entries ≠ []) :
    Entry.joinSame entries ≠ [] := by
  cases entries with
  | nil => exact absurd rfl h
  | cons first entries =>
    -- The entry that others are joined to stays.
    rw [Entry.joinSame]
    clear h
    induction entries generalizing first with
    | nil => simp [joinSame.go]
    | cons next entries ih =>
      rw [joinSame.go]
      split
      · exact ih _
      · simp

end Entry

/-! ## The text of entries -/

/-- Entries set one below the other are lines of the specifications that they import. -/
theorem exists_lines_entries {entries : List Entry} (h : ∀ e ∈ entries, e.Reads) (n : Nat) :
    ∃ specs, Lines true n specs (unlines (entries.map fun e => e.comment ++ e.line)) ∧
      pairsOf specs = entries.map Entry.pair := by
  induction entries with
  | nil => exact ⟨[], .done .nil, rfl⟩
  | cons e entries ih =>
    obtain ⟨specs, hlines, hpairs⟩ := ih fun f hf => h f (List.mem_cons_of_mem _ hf)
    obtain ⟨hcomment, indent, tail, s, hindent, hclosing, hline, hpair⟩ :=
      h e (List.mem_cons_self ..)
    have htext : unlines ((e :: entries).map fun e => e.comment ++ e.line) =
        e.comment ++ indent ++ (s.chars ++ (tail ++ ['\n'] ++
          unlines (entries.map fun e => e.comment ++ e.line))) := by
      rw [List.map_cons, unlines_cons, hline]
      simp
    rw [htext]
    refine ⟨_, .line (hcomment.append hindent) hclosing hlines, ?_⟩
    rw [pairsOf, List.filterMap_cons, pair?_placed, hpair, List.map_cons, ← hpairs]
    rfl

theorem intercalate_newline {ls : List (List Char)} (h : ls ≠ []) :
    ['\n'].intercalate ls ++ ['\n'] = unlines ls := by
  induction ls with
  | nil => exact absurd rfl h
  | cons l ls ih =>
    cases ls with
    | nil => simp
    | cons m ls =>
      rw [List.intercalate_cons_cons, List.append_assoc, ih (by simp)]
      simp

/-- **The text of a group is lines that import what its entries do.** -/
theorem exists_lines_groupText {text : List Char} {subs : Dictionary String}
    {group : List (Import × SpecLine)} (hne : group ≠ [])
    (h : ∀ row ∈ group, (Entry.ofSpec text subs row).Reads) (n : Nat) :
    ∃ specs, Lines true n specs (groupText text subs group ++ ['\n']) ∧
      ∀ p, p ∈ pairsOf specs ↔ ∃ row ∈ group, (Entry.ofSpec text subs row).pair = p := by
  -- Sorting moves the entries and joining takes some together, and neither loses an import.
  have hperm := sortBy_perm Entry.le (group.map (Entry.ofSpec text subs))
  have hsorted : ∀ e ∈ sortBy Entry.le (group.map (Entry.ofSpec text subs)), e.Reads := by
    intro e he
    obtain ⟨row, hrow, rfl⟩ := List.mem_map.1 (hperm.mem_iff.1 he)
    exact h row hrow
  have hentries : sortBy Entry.le (group.map (Entry.ofSpec text subs)) ≠ [] := by
    intro hnil
    rw [hnil] at hperm
    exact hne (List.map_eq_nil_iff.1 hperm.nil_eq.symm)
  obtain ⟨specs, hlines, hpairs⟩ := exists_lines_entries (Entry.Reads.joinSame hsorted) n
  refine ⟨specs, ?_, fun p => ?_⟩
  · rw [groupText, intercalate_newline]
    · exact hlines
    · intro hnil
      exact Entry.joinSame_ne_nil hentries (List.map_eq_nil_iff.1 hnil)
  · rw [hpairs, Entry.mem_pairs_joinSame, (hperm.map Entry.pair).mem_iff, List.map_map,
      List.mem_map]
    rfl

end PinnedImports.Imports
