import PinnedImports.Proofs.Patterns.Below

/-!
# Several patterns

The patterns of a list are expanded one behind the other (`Patterns.packageDirs_inTurn`). A pattern
that is neither a directory nor an import path is reported and passed over (`Patterns.Unknown`), so
it never changes which directories the others name. A pattern for all that lies below a directory is
never reported. If nothing can be found at its directory (`Patterns.Absent`), the whole list fails
with it, and it does so in no other way (`Patterns.exists_expand_iff`).
-/

set_option autoImplicit false

namespace PinnedImports.Patterns

open Storage Storage.Node

/-! ## One behind the other -/

/-- What two lists of patterns give one behind the other. A failure of the first ends it. -/
def inTurn : Except WalkError (List String) × List Notice →
    Except WalkError (List String) × List Notice → Except WalkError (List String) × List Notice
  | (.error e, notices), _ => (.error e, notices)
  | (.ok dirs, notices), (others, more) => (others.map (dirs ++ ·), notices ++ more)

@[simp] theorem inTurn_nil (after : Except WalkError (List String) × List Notice) :
    inTurn (.ok [], []) after = after := by
  obtain ⟨others | others, more⟩ := after <;> simp [inTurn, Except.map]

theorem inTurn_assoc (a b c : Except WalkError (List String) × List Notice) :
    inTurn (inTurn a b) c = inTurn a (inTurn b c) := by
  obtain ⟨e | dirs, notices⟩ := a
  · rfl
  · obtain ⟨e | others, more⟩ := b
    · rfl
    · obtain ⟨e | third, last⟩ := c <;> simp [inTurn, Except.map]

theorem exists_ok_inTurn {a b : Except WalkError (List String) × List Notice} :
    (∃ dirs, (inTurn a b).1 = .ok dirs) ↔ (∃ dirs, a.1 = .ok dirs) ∧ ∃ dirs, b.1 = .ok dirs := by
  obtain ⟨e | dirs, notices⟩ := a
  · simp [inTurn]
  · obtain ⟨e | others, more⟩ := b <;> simp [inTurn, Except.map]

section Lists

variable (root : Node) (filter : Filter) (workspace : Workspace)

theorem expandAll_cons (pattern : String) (rest : List String) :
    expandAll root filter workspace (pattern :: rest) =
      inTurn (expandAll root filter workspace [pattern])
        (expandAll root filter workspace rest) := by
  rw [expandAll, expandAll]
  cases expand root filter workspace pattern with
  | error e => rfl
  | ok found => simp [expandAll, inTurn, Except.map]

theorem expandAll_append (ps qs : List String) : expandAll root filter workspace (ps ++ qs) =
    inTurn (expandAll root filter workspace ps) (expandAll root filter workspace qs) := by
  induction ps with
  | nil => rw [List.nil_append, expandAll, inTurn_nil]
  | cons pattern rest ih =>
    rw [List.cons_append, expandAll_cons, ih, expandAll_cons root filter workspace pattern rest,
      inTurn_assoc]

theorem packageDirs_of_ne_nil {ps : List String} (hps : ps ≠ []) :
    packageDirs root filter workspace ps = expandAll root filter workspace ps := by
  rw [packageDirs, if_neg (by rwa [List.isEmpty_iff])]

end Lists

/-! ## One pattern -/

/-- A pattern that is neither a directory nor an import path of the workspace, nor a pattern for all
that lies below a directory. -/
structure Unknown (root : Node) (workspace : Workspace) (pattern : String) : Prop where
  plain : ∀ dir, ¬ Recursive pattern dir
  noDirectory : root.hasDirectory pattern = false
  noImport : workspace.directory? root pattern = none

/-- A pattern for all that lies below a directory at whose path nothing can be found. -/
def Absent (root : Node) (pattern : String) : Prop :=
  ∃ dir e, Recursive pattern dir ∧ root.stat dir = .error e

section Single

variable {root : Node} {workspace : Workspace} {pattern : String}

theorem recursiveRoot?_eq_none (h : ∀ dir, ¬ Recursive pattern dir) :
    recursiveRoot? pattern = none := by
  rw [Option.eq_none_iff_forall_ne_some]
  exact fun dir hdir => h dir (recursiveRoot?_iff.1 hdir)

theorem expand_unknown (h : Unknown root workspace pattern) (filter : Filter) :
    expand root filter workspace pattern =
      .ok ([], [⟨.warn, "can't find package " ++ pattern⟩]) := by
  rw [expand, recursiveRoot?_eq_none h.plain, h.noDirectory, h.noImport]
  rfl

theorem expand_error {dir : String} {e : OsError} (hpattern : Recursive pattern dir)
    (hdir : root.stat dir = .error e) (filter : Filter) :
    expand root filter workspace pattern = .error ⟨dir, e⟩ := by
  rw [expand, recursiveRoot?_iff.2 hpattern]
  simp only [below_of_error hdir filter]
  rfl

/-- A recursive pattern goes well without a notice if something is at its path. -/
theorem expand_recursive (horderly : root.OrderlyTree) {dir : String} {node : Node}
    (hpattern : Recursive pattern dir) (hdir : root.stat dir = .ok node) (filter : Filter)
    (workspace : Workspace) : ∃ dirs, expand root filter workspace pattern = .ok (dirs, []) := by
  obtain ⟨dirs, hdirs⟩ : ∃ dirs, below root filter dir = .ok dirs := by
    cases node with
    | file mode content => exact ⟨[], below_of_not_directory hdir rfl filter⟩
    | link target => exact ⟨[], below_of_not_directory hdir rfl filter⟩
    | directory es =>
      obtain ⟨_, -, -, hbelow⟩ := below_eq horderly hdir filter
      exact ⟨_, hbelow⟩
  refine ⟨dirs, ?_⟩
  rw [expand, recursiveRoot?_iff.2 hpattern]
  simp only [hdirs]
  rfl

/-- **Only an absent directory makes a pattern fail.** -/
theorem exists_expand_iff (horderly : root.OrderlyTree) (filter : Filter) :
    (∃ found, expand root filter workspace pattern = .ok found) ↔ ¬ Absent root pattern := by
  constructor
  · rintro ⟨found, hfound⟩ ⟨dir, e, hpattern, hdir⟩
    rw [expand_error hpattern hdir filter] at hfound
    cases hfound
  · intro hfound
    by_cases hplain : ∀ dir, ¬ Recursive pattern dir
    · -- A plain pattern is a directory, an import path or unknown, and goes well in each case.
      rw [expand, recursiveRoot?_eq_none hplain]
      simp only
      split
      · exact ⟨_, rfl⟩
      · split <;> exact ⟨_, rfl⟩
    · obtain ⟨dir, hpattern⟩ := Classical.not_forall_not.1 hplain
      cases hdir : root.stat dir with
      | error e => exact absurd ⟨dir, e, hpattern, hdir⟩ hfound
      | ok node =>
        obtain ⟨dirs, hdirs⟩ := expand_recursive horderly hpattern hdir filter workspace
        exact ⟨_, hdirs⟩

end Single

/-! ## Several patterns -/

section Several

variable {root : Node} (horderly : root.OrderlyTree) (filter : Filter) (workspace : Workspace)

include horderly in
theorem exists_expandAll_iff (ps : List String) :
    (∃ dirs, (expandAll root filter workspace ps).1 = .ok dirs) ↔ ∀ p ∈ ps, ¬ Absent root p := by
  induction ps with
  | nil => simp [expandAll]
  | cons pattern rest ih =>
    have hfirst : (∃ dirs, (expandAll root filter workspace [pattern]).1 = .ok dirs) ↔
        ∃ found, expand root filter workspace pattern = .ok found := by
      cases hrun : expand root filter workspace pattern <;> simp [expandAll, hrun, Except.map]
    rw [expandAll_cons, exists_ok_inTurn, hfirst, exists_expand_iff horderly, ih,
      List.forall_mem_cons]

include horderly in
/-- **Patterns are expanded one behind the other.** In a tree whose directories are in order, two
lists of patterns give behind each other what each gives by itself. A list goes well unless one of
its patterns is for all that lies below a directory at which nothing can be found. A pattern that is
neither a directory nor an import path is reported, names no directory and changes nothing in what
the patterns around it name, be it directories or a failure. A pattern for all that lies below
something that is found is never reported. -/
theorem packageDirs_inTurn {ps qs : List String} (hps : ps ≠ []) (hqs : qs ≠ []) :
    packageDirs root filter workspace (ps ++ qs) =
        inTurn (packageDirs root filter workspace ps) (packageDirs root filter workspace qs) ∧
      ((∃ dirs, (packageDirs root filter workspace ps).1 = .ok dirs) ↔ ∀ p ∈ ps, ¬ Absent root p) ∧
      (∀ p, Unknown root workspace p →
        packageDirs root filter workspace [p] =
            (.ok [], [⟨.warn, "can't find package " ++ p⟩]) ∧
          (packageDirs root filter workspace (ps ++ p :: qs)).1 =
            (packageDirs root filter workspace (ps ++ qs)).1) ∧
      ∀ p dir node, Recursive p dir → root.stat dir = .ok node →
        ∃ dirs, packageDirs root filter workspace [p] = (.ok dirs, []) := by
  have hrun : ∀ {ps : List String}, ps ≠ [] → packageDirs root filter workspace ps =
      expandAll root filter workspace ps := packageDirs_of_ne_nil root filter workspace
  have hboth : ps ++ qs ≠ [] := List.append_ne_nil_of_left_ne_nil hps qs
  refine ⟨?_, ?_, ?_, ?_⟩
  · rw [hrun hboth, hrun hps, hrun hqs, expandAll_append]
  · rw [hrun hps, exists_expandAll_iff horderly]
  · intro p hp
    have hone : expandAll root filter workspace [p] =
        (.ok [], [⟨.warn, "can't find package " ++ p⟩]) := by
      simp [expandAll, expand_unknown hp, Except.map]
    refine ⟨by rw [hrun (List.cons_ne_nil p []), hone], ?_⟩
    rw [hrun (List.append_ne_nil_of_left_ne_nil hps _), hrun hboth, expandAll_append,
      expandAll_append, expandAll_cons, hone]
    -- Behind what the first patterns give, the notice is all that the pattern adds.
    obtain ⟨e | dirs, notices⟩ := expandAll root filter workspace ps
    · rfl
    · obtain ⟨e | others, more⟩ := expandAll root filter workspace qs <;> simp [inTurn, Except.map]
  · intro p dir node hp hdir
    obtain ⟨dirs, hdirs⟩ := expand_recursive horderly hp hdir filter workspace
    refine ⟨dirs, ?_⟩
    rw [hrun (List.cons_ne_nil p [])]
    simp [expandAll, hdirs, Except.map]

end Several

/-- An unknown pattern behind a directory is reported, but the directory below which everything is
asked for makes the list fail if it is not there. -/
theorem absent_fails_others :
    packageDirs linkedDirectory ⟨[], true⟩ ⟨[]⟩ (["src"] ++ ["nowhere"]) =
        (.ok ["src"], [⟨.warn, "can't find package nowhere"⟩]) ∧
      ∀ dirs,
        (packageDirs linkedDirectory ⟨[], true⟩ ⟨[]⟩ ["src", "nowhere/..."]).1 ≠ .ok dirs := by
  have hplain : ∀ dir, ¬ Recursive "nowhere" dir := fun dir hdir => by
    have hnone : recursiveRoot? "nowhere" = none := by decide
    rw [recursiveRoot?_iff.2 hdir] at hnone
    cases hnone
  have hunknown : Unknown linkedDirectory ⟨[]⟩ "nowhere" := ⟨hplain, rfl, rfl⟩
  have habsent : Absent linkedDirectory "nowhere/..." :=
    ⟨"nowhere", .notFound, recursiveRoot?_iff.1 (by decide), rfl⟩
  have hqs : ["nowhere"] ≠ [] := List.cons_ne_nil _ _
  constructor
  · obtain ⟨hturn, -, hreported, -⟩ := packageDirs_inTurn orderlyTree_linkedDirectory
      ⟨[], true⟩ ⟨[]⟩ (List.cons_ne_nil "src" []) hqs
    rw [hturn, (hreported _ hunknown).1]
    rfl
  · obtain ⟨-, hfails, -⟩ := packageDirs_inTurn orderlyTree_linkedDirectory
      ⟨[], true⟩ ⟨[]⟩ (List.cons_ne_nil "src" ["nowhere/..."]) hqs
    intro dirs hdirs
    exact hfails.1 ⟨dirs, hdirs⟩ _ (List.mem_cons_of_mem _ List.mem_cons_self) habsent

end PinnedImports.Patterns
