import Mathlib.Data.List.Chain
import PinnedImports.Proofs.Imports.Blocks

/-!
# Sorted groups

The imports of a block that stand on adjacent lines form a group, as long as it can be (`Runs`). A
group in which a path is substituted is written as entries in strictly increasing order, one for
each name and path that the group imports behind the substitutions. An entry has the line of the
first of the imports with its name and path, and the comments of all of them in the order of the
source (`SortedEntries`). All edits of a block are of this kind, and groups without a substitution
have none (`groupEdits_sorted`).
-/

set_option autoImplicit false

namespace PinnedImports.Imports

open Text Go

/-! ## The order of entries -/

namespace Entry

/-- The first entry has the smaller path, or the same path and the smaller name. Having no name
comes first. -/
def Before (a b : Entry) : Prop := a.path < b.path ∨ (a.path = b.path ∧ a.name < b.name)

theorem le_iff {a b : Entry} :
    a.le b = true ↔ a.path < b.path ∨ (a.path = b.path ∧ nameLe a.name b.name = true) := by
  rw [le, Bool.or_eq_true, Bool.and_eq_true, decide_eq_true_eq, beq_iff_eq]

theorem nameLe_total (a b : Option String) : nameLe a b = true ∨ nameLe b a = true := by
  cases a with
  | none => exact .inl rfl
  | some a =>
    cases b with
    | none => exact .inr rfl
    | some b => simpa [nameLe] using String.le_total a b

theorem nameLe_trans {a b c : Option String} (hab : nameLe a b = true) (hbc : nameLe b c = true) :
    nameLe a c = true := by
  cases a with
  | none => rfl
  | some a =>
    cases b with
    | none => simp [nameLe] at hab
    | some b =>
      cases c with
      | none => simp [nameLe] at hbc
      | some c =>
        simp only [nameLe, decide_eq_true_eq] at hab hbc ⊢
        exact String.le_trans hab hbc

/-- Of two names that differ the one that is ordered before is smaller. -/
theorem lt_of_nameLe {a b : Option String} (h : nameLe a b = true) (hne : a ≠ b) : a < b := by
  cases a with
  | none =>
    cases b with
    | none => exact absurd rfl hne
    | some b => simp
  | some a =>
    cases b with
    | none => simp [nameLe] at h
    | some b =>
      rw [nameLe, decide_eq_true_eq] at h
      rw [ne_eq, Option.some.injEq] at hne
      rw [Option.some_lt_some]
      apply Dictionary.lt_of_not_lt_of_ne
      · exact String.not_lt.2 h
      · exact Ne.symm hne

theorem nameLe_antisymm {a b : Option String} (hab : nameLe a b = true) (hba : nameLe b a = true) :
    a = b := by
  cases a with
  | none =>
    cases b with
    | none => rfl
    | some b => simp [nameLe] at hba
  | some a =>
    cases b with
    | none => simp [nameLe] at hab
    | some b =>
      simp only [nameLe, decide_eq_true_eq] at hab hba
      exact congrArg some (String.le_antisymm hab hba)

theorem le_total (a b : Entry) : a.le b = true ∨ b.le a = true := by
  rw [le_iff, le_iff]
  by_cases hlt : a.path < b.path
  · exact .inl (.inl hlt)
  by_cases heq : a.path = b.path
  · rcases nameLe_total a.name b.name with hle | hle
    · exact .inl (.inr ⟨heq, hle⟩)
    · exact .inr (.inr ⟨heq.symm, hle⟩)
  · exact .inr (.inl (Dictionary.lt_of_not_lt_of_ne hlt heq))

theorem le_trans (a b c : Entry) (hab : a.le b = true) (hbc : b.le c = true) : a.le c = true := by
  rw [le_iff] at hab hbc ⊢
  rcases hab with hab | ⟨hab, hname⟩
  · rcases hbc with hbc | ⟨hbc, -⟩
    · exact .inl (String.lt_trans hab hbc)
    · exact .inl (hbc ▸ hab)
  · rcases hbc with hbc | ⟨hbc, hname'⟩
    · exact .inl (hab ▸ hbc)
    · exact .inr ⟨hab.trans hbc, nameLe_trans hname hname'⟩

/-- Only entries of the same name and path are ordered both ways. -/
theorem pair_eq_of_le {a b : Entry} (hab : a.le b = true) (hba : b.le a = true) :
    a.pair = b.pair := by
  rw [le_iff] at hab hba
  rcases hab with hab | ⟨hab, hname⟩
  · rcases hba with hba | ⟨hba, -⟩
    · exact absurd (String.lt_trans hab hba) (String.lt_irrefl _)
    · exact absurd (hba ▸ hab) (String.lt_irrefl _)
  · rcases hba with hba | ⟨-, hname'⟩
    · exact absurd (hab ▸ hba) (String.lt_irrefl _)
    · rw [pair, pair, hab, nameLe_antisymm hname hname']

theorem le_of_pair_eq {a b : Entry} (h : a.pair = b.pair) : a.le b = true := by
  rw [pair, pair, Prod.mk.injEq] at h
  rw [le_iff]
  refine .inr ⟨h.2, ?_⟩
  rcases nameLe_total a.name b.name with hle | hle
  · exact hle
  · rwa [h.1] at hle ⊢

theorem before_of_le {a b : Entry} (h : a.le b = true) (hne : a.pair ≠ b.pair) : a.Before b := by
  rcases le_iff.1 h with hlt | ⟨heq, hname⟩
  · exact .inl hlt
  · refine .inr ⟨heq, lt_of_nameLe hname fun hname' => hne ?_⟩
    rw [pair, pair, heq, hname']

theorem Before.le {a b : Entry} (h : a.Before b) : a.le b = true := by
  rw [le_iff]
  refine h.imp_right fun ⟨heq, hlt⟩ => ⟨heq, ?_⟩
  cases hb : b.name with
  | none =>
    rw [hb] at hlt
    simp at hlt
  | some name =>
    cases ha : a.name with
    | none => rfl
    | some name' =>
      rw [ha, hb, Option.some_lt_some] at hlt
      rw [nameLe, decide_eq_true_eq]
      apply String.not_lt.1
      exact fun hlt' => String.lt_irrefl _ (String.lt_trans hlt hlt')

theorem Before.pair_ne {a b : Entry} (h : a.Before b) : a.pair ≠ b.pair := by
  intro heq
  rw [pair, pair, Prod.mk.injEq] at heq
  rcases h with hlt | ⟨-, hlt⟩
  · exact String.lt_irrefl _ (heq.2 ▸ hlt)
  · rw [heq.1] at hlt
    cases hb : b.name with
    | none =>
      rw [hb] at hlt
      simp at hlt
    | some name =>
      rw [hb, Option.some_lt_some] at hlt
      exact String.lt_irrefl _ hlt

/-! ## Joined entries -/

/-- The second entries are the first ones in strictly increasing order, with all entries of the
same name and path in one: it has the line of the first of them and the comments of all. -/
structure Collapse (entries joined : List Entry) : Prop where
  increasing : joined.Pairwise Before
  pairs : ∀ p, p ∈ joined.map pair ↔ p ∈ entries.map pair
  same : ∀ e ∈ joined, ∃ first rest, entries.filter (fun x => x.pair = e.pair) = first :: rest ∧
    e.line = first.line ∧ e.comment = (first :: rest).flatMap (·.comment)

/-- Only the order of entries of the same name and path matters. -/
theorem Collapse.of_filter_eq {entries entries' joined : List Entry} (h : Collapse entries joined)
    (hpairs : ∀ p, p ∈ entries'.map pair ↔ p ∈ entries.map pair)
    (hfilter : ∀ p, entries'.filter (fun x => x.pair = p) = entries.filter fun x => x.pair = p) :
    Collapse entries' joined where
  increasing := h.increasing
  pairs p := (h.pairs p).trans (hpairs p).symm
  same e he := by
    rw [hfilter]
    exact h.same e he

/-- An entry that comes before all others stays as it is. -/
theorem Collapse.cons {first : Entry} {entries joined : List Entry} (h : Collapse entries joined)
    (hfirst : ∀ e ∈ entries, first.Before e) : Collapse (first :: entries) (first :: joined) where
  increasing := by
    refine List.pairwise_cons.2 ⟨fun e he => ?_, h.increasing⟩
    obtain ⟨x, hx, hpair⟩ := List.mem_map.1 ((h.pairs e.pair).1 (List.mem_map_of_mem he))
    apply before_of_le
    · exact le_trans _ _ _ (hfirst x hx).le (le_of_pair_eq hpair)
    · rw [← hpair]
      exact (hfirst x hx).pair_ne
  pairs p := by
    rw [List.map_cons, List.map_cons, List.mem_cons, List.mem_cons, h.pairs]
  same e he := by
    rcases List.mem_cons.1 he with rfl | he
    · have hnone : entries.filter (fun x => x.pair = e.pair) = [] := by
        rw [List.filter_eq_nil_iff]
        intro x hx
        rw [decide_eq_true_eq]
        exact fun heq => (hfirst x hx).pair_ne heq.symm
      refine ⟨e, [], ?_, rfl, by simp⟩
      rw [List.filter_cons_of_pos (by simp), hnone]
    · obtain ⟨x, hx, hpair⟩ := List.mem_map.1 ((h.pairs e.pair).1 (List.mem_map_of_mem he))
      have hne : first.pair ≠ e.pair := hpair ▸ (hfirst x hx).pair_ne
      rw [List.filter_cons_of_neg (by simpa using hne)]
      exact h.same e he

/-- Two entries of the same name and path at the front are one. -/
theorem Collapse.join {first next : Entry} {entries joined : List Entry}
    (hpair : first.pair = next.pair)
    (h : Collapse ({ first with comment := first.comment ++ next.comment } :: entries) joined) :
    Collapse (first :: next :: entries) joined where
  increasing := h.increasing
  pairs p := by
    have hfirst : ({ first with comment := first.comment ++ next.comment } : Entry).pair =
        first.pair := rfl
    rw [h.pairs, List.map_cons, List.map_cons, List.map_cons, List.mem_cons, List.mem_cons,
      List.mem_cons, hfirst, ← hpair, ← or_assoc, or_self]
  same e he := by
    obtain ⟨x, rest, hfilter, hline, hcomment⟩ := h.same e he
    by_cases heq : first.pair = e.pair
    · -- The entry is the joined one, so its first two comments are those of the two.
      rw [List.filter_cons_of_pos (by simpa [pair] using heq), List.cons.injEq] at hfilter
      obtain ⟨rfl, rfl⟩ := hfilter
      refine ⟨first, next :: entries.filter fun x => x.pair = e.pair, ?_, hline, ?_⟩
      · rw [List.filter_cons_of_pos (by simpa using heq),
          List.filter_cons_of_pos (by simpa [hpair] using heq)]
      · rw [hcomment]
        simp
    · rw [List.filter_cons_of_neg (by simpa [pair] using heq)] at hfilter
      refine ⟨x, rest, ?_, hline, hcomment⟩
      rw [List.filter_cons_of_neg (by simpa using heq),
        List.filter_cons_of_neg (by simpa [hpair] using heq), hfilter]

theorem collapse_go (entries : List Entry) :
    ∀ first : Entry, (first :: entries).Pairwise (fun a b => a.le b = true) →
      Collapse (first :: entries) (joinSame.go first entries) := by
  induction entries with
  | nil =>
    intro first _
    have hempty : Collapse [] [] := ⟨.nil, by simp, by simp⟩
    exact hempty.cons (by simp)
  | cons next entries ih =>
    intro first hsorted
    obtain ⟨hfirst, hrest⟩ := List.pairwise_cons.1 hsorted
    obtain ⟨hnext, hentries⟩ := List.pairwise_cons.1 hrest
    rw [joinSame.go]
    split
    · rename_i hsame
      have hpair := same_iff.1 hsame
      apply Collapse.join hpair
      apply ih
      exact List.pairwise_cons.2 ⟨fun e he => hfirst e (List.mem_cons_of_mem _ he), hentries⟩
    · rename_i hsame
      apply (ih next hrest).cons
      intro e he
      apply before_of_le (hfirst e he)
      -- An entry like the first would be ordered before the next one, and that one is not like it.
      intro heq
      apply hsame
      apply same_iff.2
      apply pair_eq_of_le (hfirst next (List.mem_cons_self ..))
      rcases List.mem_cons.1 he with rfl | he
      · exact le_of_pair_eq heq.symm
      · exact le_trans _ _ _ (hnext e he) (le_of_pair_eq heq.symm)

/-- **Sorting and joining collapses entries.** -/
theorem collapse_sorted (entries : List Entry) :
    Collapse entries (joinSame (sortBy le entries)) := by
  have hperm := sortBy_perm le entries
  have hsorted : Collapse (sortBy le entries) (joinSame (sortBy le entries)) := by
    have horder := pairwise_sortBy le_total le_trans entries
    cases hlist : sortBy le entries with
    | nil => exact ⟨.nil, by simp [joinSame], by simp [joinSame]⟩
    | cons first rest =>
      rw [hlist] at horder
      exact collapse_go rest first horder
  apply hsorted.of_filter_eq
  · intro p
    exact (hperm.map pair).mem_iff.symm
  · intro p
    apply Eq.symm
    apply filter_sortBy
    intro a b ha hb
    rw [decide_eq_true_eq] at ha hb
    exact le_of_pair_eq (ha.trans hb.symm)

end Entry

/-! ## Runs of adjacent lines -/

/-- The lines of the second import begin directly below those of the first. -/
def Adjoins (a b : Import × SpecLine) : Prop := a.2.stop + 1 = b.2.lead

/-- A list of rows is cut into runs of rows with adjacent lines that cannot be longer. -/
structure Runs (rows : List (Import × SpecLine)) (runs : List (List (Import × SpecLine))) :
    Prop where
  flatten : runs.flatten = rows
  ne_nil : ∀ run ∈ runs, run ≠ []
  adjoined : ∀ run ∈ runs, run.IsChain Adjoins
  apart : runs.IsChain fun a b => ∀ last ∈ a.getLast?, ∀ first ∈ b.head?, ¬ Adjoins last first

/-- The groups of a block are the runs of its rows. -/
theorem runs_groups (rows : List (Import × SpecLine)) : Runs rows (groups rows) := by
  induction rows with
  | nil => exact ⟨rfl, by simp [groups], by simp [groups], .nil⟩
  | cons row rows ih =>
    obtain ⟨hflatten, hne, hadjoined, hapart⟩ := ih
    -- The row is set in front of the runs of the others, of which only the first one can take it.
    rcases hgroups : groups rows with _ | ⟨_ | ⟨next, group⟩, others⟩
    · rw [hgroups, List.flatten_nil] at hflatten
      rw [groups_cons_of_nil hgroups, ← hflatten]
      exact ⟨rfl, by simp, by simp, .singleton _⟩
    · exact absurd rfl (hne [] (by rw [hgroups]; exact List.mem_cons_self ..))
    · rw [hgroups] at hflatten hne hadjoined hapart
      obtain ⟨hhead, htail⟩ := List.forall_mem_cons.1 hadjoined
      rw [groups_cons_of_cons hgroups]
      split
      · -- The row joins the run of the next one.
        rename_i hnext
        refine ⟨by simpa using hflatten, ?_, ?_, ?_⟩
        · exact List.forall_mem_cons.2 ⟨by simp, (List.forall_mem_cons.1 hne).2⟩
        · exact List.forall_mem_cons.2 ⟨.cons_cons hnext hhead, htail⟩
        · rw [List.isChain_cons] at hapart ⊢
          rwa [List.getLast?_cons_cons]
      · rename_i hnext
        refine ⟨by simpa using hflatten, ?_, ?_, ?_⟩
        · exact List.forall_mem_cons.2 ⟨by simp, hne⟩
        · exact List.forall_mem_cons.2 ⟨.singleton _, hadjoined⟩
        · refine .cons_cons ?_ hapart
          intro last hlast first hfirst
          rw [List.getLast?_singleton, Option.mem_some_iff] at hlast
          rw [List.head?_cons, Option.mem_some_iff] at hfirst
          rw [← hlast, ← hfirst]
          exact hnext

/-! ## Groups written anew -/

/-- The name and the path that a row imports behind the substitutions. -/
def pairBehind (subs : Dictionary String) (row : Import × SpecLine) : Option String × String :=
  substituted subs (row.1.name, row.1.path)

/-- The entries of a group: in strictly increasing order, one for each name and path that the group
imports behind the substitutions, with the line of the first import of these and the comments of
all, in the order of the source. -/
structure SortedEntries (text : List Char) (subs : Dictionary String)
    (group : List (Import × SpecLine)) (entries : List Entry) : Prop where
  increasing : entries.Pairwise Entry.Before
  pairs : ∀ p, p ∈ entries.map Entry.pair ↔ p ∈ group.map (pairBehind subs)
  same : ∀ e ∈ entries, ∃ first rest,
    group.filter (fun row => pairBehind subs row = e.pair) = first :: rest ∧
      e.line = (Entry.ofSpec text subs first).line ∧
        e.comment = (first :: rest).flatMap (commentAbove text)

/-- **A group is written as its entries.** -/
theorem exists_sortedEntries (text : List Char) (subs : Dictionary String)
    (group : List (Import × SpecLine)) :
    ∃ entries, SortedEntries text subs group entries ∧
      groupText text subs group =
        ['\n'].intercalate (entries.map fun entry => entry.comment ++ entry.line) := by
  have hcollapse := Entry.collapse_sorted (group.map (Entry.ofSpec text subs))
  have hpairs : (group.map (Entry.ofSpec text subs)).map Entry.pair =
      group.map (pairBehind subs) := by
    rw [List.map_map]
    exact List.map_congr_left fun row _ => ofSpec_pair text subs row
  refine ⟨_, ⟨hcollapse.increasing, fun p => ?_, fun e he => ?_⟩, rfl⟩
  · rw [hcollapse.pairs, hpairs]
  · obtain ⟨x, more, hfilter, hline, hcomment⟩ := hcollapse.same e he
    -- The entries of the pair are those of its rows, and so are their lines and comments.
    rw [List.filter_map, List.map_eq_cons_iff] at hfilter
    obtain ⟨first, rest, hrows, rfl, rfl⟩ := hfilter
    refine ⟨first, rest, ?_, hline, ?_⟩
    · rw [← hrows]
      apply List.filter_congr
      intro row _
      rw [Function.comp_apply, ofSpec_pair, pairBehind]
    · rw [hcomment, ← List.map_cons, List.flatMap_map]
      exact List.flatMap_congr fun row _ => ofSpec_comment text subs row

/-- The edit exchanges the lines of a group, from the comment above the first import to the end of
the last line, for its entries. -/
def SortsGroup (text : List Char) (subs : Dictionary String) (group : List (Import × SpecLine))
    (e : Edit) : Prop :=
  ∃ first ∈ group.head?, ∃ last ∈ group.getLast?, ∃ entries,
    SortedEntries text subs group entries ∧
      e = ⟨first.2.lead, last.2.stop,
        ['\n'].intercalate (entries.map fun entry => entry.comment ++ entry.line)⟩

theorem sortsGroup_of_groupEdit? {text : List Char} {subs : Dictionary String}
    {group : List (Import × SpecLine)} {e : Edit} (h : groupEdit? text subs group = some e) :
    SortsGroup text subs group e := by
  obtain ⟨-, first, hfirst, last, hlast, rfl⟩ := groupEdit?_eq_some.1 h
  obtain ⟨entries, hentries, htext⟩ := exists_sortedEntries text subs group
  exact ⟨first, hfirst, last, hlast, entries, hentries, by rw [htext]⟩

/-- Groups that have an edit are those with a substitution. -/
theorem exists_groupEdit (text : List Char) {subs : Dictionary String}
    {group : List (Import × SpecLine)}
    (h : (group.any fun row => subs.contains row.1.path) = true) :
    ∃ e, groupEdit? text subs group = some e := by
  cases group with
  | nil => simp at h
  | cons row rows => exact ⟨_, if_pos h⟩

/-- **Groups are sorted.** The rows of a block are cut into the longest runs of rows with adjacent
lines. Of these each one with a substitution has one edit, in their order, that exchanges its lines
for its sorted entries, and the others have none. -/
theorem groupEdits_sorted (text : List Char) (subs : Dictionary String)
    (rows : List (Import × SpecLine)) :
    Runs rows (groups rows) ∧
      List.Forall₂ (SortsGroup text subs)
        ((groups rows).filter fun group => group.any fun row => subs.contains row.1.path)
        ((groups rows).filterMap (groupEdit? text subs)) := by
  refine ⟨runs_groups rows, ?_⟩
  generalize groups rows = gs
  induction gs with
  | nil => exact .nil
  | cons group gs ih =>
    by_cases hany : (group.any fun row => subs.contains row.1.path) = true
    · obtain ⟨e, hedit⟩ := exists_groupEdit text hany
      rw [List.filter_cons_of_pos (a := group) hany, List.filterMap_cons_some hedit]
      exact .cons (sortsGroup_of_groupEdit? hedit) ih
    · have hnone : groupEdit? text subs group = none := by
        rw [Option.eq_none_iff_forall_ne_some]
        exact fun e hedit => hany (groupEdit?_eq_some.1 hedit).1
      rw [List.filter_cons_of_neg (a := group) hany, List.filterMap_cons_none hnone]
      exact ih

end PinnedImports.Imports
