import PinnedImports.Proofs.Pass.Substitutions

/-!
# Passes over libraries

What a library imports is imported by others as well, so it is never pinned to an unpublished
revision. From the record of a repository a library gets the path of the published version, or the
bare path where nothing is published and unpinned imports are allowed (`select_library_eq_use`).
The preference for revisions is one for applications: for a library it changes nothing in a whole
pass (`onDirectory_library`).
-/

set_option autoImplicit false

namespace PinnedImports

namespace Registry

/-- A path that a library may import in place of a repository: that of a published version, or the
bare one where nothing is published and unpinned imports are allowed. -/
def Record.IsLibraryPath (r : Record) (path : String) : Prop :=
  (0 < r.version ∧ path = r.registryPath ++ ".v" ++ toString r.version) ∨
    (r.version ≤ 0 ∧ r.allowsUnpinned = true ∧ path = r.registryPath)

/-- **The choice for a library.** The revision of the record does not occur in it. -/
theorem select_library_eq_use {r : Record} {preferRevisions : Bool} {path : String} :
    select r true preferRevisions = .use path ↔
      r.error.isEmpty = true ∧ r.registryPath.isEmpty = false ∧ r.IsLibraryPath path := by
  rw [select]
  cases r.error.isEmpty with
  | false => simp
  | true =>
    cases r.registryPath.isEmpty with
    | true => simp
    | false =>
      simp only [Bool.not_true, Bool.false_eq_true, if_false, if_true, true_and]
      by_cases hversion : 0 < r.version
      · -- With a published version the path of the version does not fall back to the revision.
        have hpath : r.versionPath = r.registryPath ++ ".v" ++ toString r.version := if_pos hversion
        rw [if_pos hversion, Selection.use.injEq, hpath, Record.IsLibraryPath]
        constructor
        · exact fun heq => .inl ⟨hversion, heq.symm⟩
        · rintro (⟨-, rfl⟩ | ⟨hle, -, -⟩)
          · rfl
          · omega
      · rw [if_neg hversion, Record.IsLibraryPath]
        cases hunpinned : r.allowsUnpinned with
        | false => simp [hversion]
        | true =>
          rw [if_pos rfl, Selection.use.injEq]
          constructor
          · exact fun heq => .inr ⟨Int.not_lt.1 hversion, rfl, heq.symm⟩
          · rintro (⟨hlt, -⟩ | ⟨-, -, rfl⟩)
            · exact absurd hlt hversion
            · rfl

theorem select_library (r : Record) (preferRevisions other : Bool) :
    select r true preferRevisions = select r true other := rfl

end Registry

namespace Pass

open Session Registry

variable {σ : Type}

theorem appliesTo_eq_true {mode : LibraryMode} {package : String} :
    mode.appliesTo package = true ↔ mode = .on ∨ (mode = .auto ∧ package ≠ "main") := by
  cases mode <;> simp [LibraryMode.appliesTo]

/-! ## The preference for revisions -/

section Preference

variable (tools : Collaborators σ) {options : Options} (preferRevisions : Bool)

theorem choose_library {package : String} (h : options.library.appliesTo package = true)
    (pairs : List (String × Record)) :
    ∀ choices, choose tools { options with preferRevisions := preferRevisions } package pairs
      choices = choose tools options package pairs choices := by
  induction pairs with
  | nil => exact fun _ => rfl
  | cons pair rest ih =>
    intro choices
    obtain ⟨key, record⟩ := pair
    rw [choose, choose]
    simp only [h, select_library record preferRevisions options.preferRevisions, ih]

/-- Committing looks at no preference. -/
theorem commitAll_preferRevisions (pins : Dictionary String) (disabled : StringSet)
    (files : List SourceFile) :
    commitAll tools { options with preferRevisions := preferRevisions } pins disabled files =
      commitAll tools options pins disabled files := by
  induction files with
  | nil => rfl
  | cons file rest ih =>
    rw [commitAll, commitAll]
    simp only [ih]

theorem pinEligible_library {package : Package}
    (h : options.library.appliesTo package.name = true) (analysis : Analysis) :
    pinEligible tools { options with preferRevisions := preferRevisions } package analysis =
      pinEligible tools options package analysis := by
  unfold pinEligible
  simp only [choose_library tools preferRevisions h, commitAll_preferRevisions]
  rfl

theorem onPackage_library {package : Package}
    (h : options.library.appliesTo package.name = true) :
    onPackage tools { options with preferRevisions := preferRevisions } package =
      onPackage tools options package := by
  unfold onPackage
  simp only [pinEligible_library tools preferRevisions h]

end Preference

/-! ## A whole pass -/

/-- The path that a commit pins a repository to was selected from the record of the repository that
the session holds in the end. -/
theorem exists_record_of_pinned {tools : Collaborators σ} {options : Options} {dir : String}
    {s s' : Session σ} {summary : PackageSummary}
    (h : onDirectory tools options dir s = (.ok (.committed summary), s')) :
    ∃ package notices, Package.load s.files dir = .ok (some package, notices) ∧
      ∀ key path, summary.pins.get? key = some path → ∃ record,
        s'.cache.record? (.latest key) = some record ∧
          select record (options.library.appliesTo package.name) options.preferRevisions =
            .use path := by
  obtain ⟨package, notices, answers, s₁, hload, -, hpin⟩ := pinEligible_of_onDirectory h
  -- The records that the choice was made from are those that the last session knows.
  obtain ⟨asked, last, hlast, hpins, -⟩ := pinEligible_spec _ _ _ _ _ _ hpin
  obtain ⟨-, rfl⟩ := withAnswers_inj hlast
  refine ⟨package, notices, hload, fun key path hpinned => ?_⟩
  obtain ⟨-, record, hrecord, hselect, -⟩ := (hpins key path).1 hpinned
  exact ⟨record, hrecord, hselect⟩

/-- **Libraries are never pinned to revisions.** Where the package in the directory is treated as a
library, each path that a pass pins a repository to is the path of a version of the repository's
record that is published, or its bare path if none is published and unpinned imports are allowed. A
pass that prefers revisions and one that does not end in the same way and in the same session: with
the same questions, the same files and the same cache. -/
theorem onDirectory_library (tools : Collaborators σ) (options : Options) (dir : String)
    (s : Session σ)
    (hlibrary : ∀ package notices, Package.load s.files dir = .ok (some package, notices) →
      options.library = .on ∨ (options.library = .auto ∧ package.name ≠ "main")) :
    (∀ summary s', onDirectory tools options dir s = (.ok (.committed summary), s') →
      ∀ key path, summary.pins.get? key = some path → ∃ record,
        s'.cache.record? (.latest key) = some record ∧ record.IsLibraryPath path) ∧
    ∀ preferRevisions,
      onDirectory tools { options with preferRevisions := preferRevisions } dir s =
        onDirectory tools options dir s := by
  refine ⟨fun summary s' hpass key path hpinned => ?_, fun preferRevisions => ?_⟩
  · obtain ⟨package, notices, hload, hselected⟩ := exists_record_of_pinned hpass
    obtain ⟨record, hrecord, hselect⟩ := hselected key path hpinned
    rw [appliesTo_eq_true.2 (hlibrary package notices hload)] at hselect
    exact ⟨record, hrecord, (select_library_eq_use.1 hselect).2.2⟩
  · -- The preference is read only where a package has been loaded.
    rw [onDirectory_eq, onDirectory_eq]
    rcases hload : Package.load s.files dir with cause | ⟨_ | package, notices⟩
    · rfl
    · rfl
    · simp only
      rw [onPackage_library tools preferRevisions
        (appliesTo_eq_true.2 (hlibrary package notices hload))]

/-- Whether a pass ended with a commit that satisfies `p`. -/
def commits (p : PackageSummary → Bool) : Except PassError Outcome → Bool
  | .ok (.committed summary) => p summary
  | _ => false

theorem exists_committed_of_commits {p : PackageSummary → Bool} {result : Except PassError Outcome}
    (h : commits p result = true) :
    ∃ summary, result = .ok (.committed summary) ∧ p summary = true := by
  rcases result with e | _ | summary | _
  · simp [commits] at h
  · simp [commits] at h
  · exact ⟨summary, rfl, h⟩
  · simp [commits] at h

/-- A world in which nothing is published, but every repository has a revision and may stay
unpinned. -/
def unpublished : Collaborators Unit where
  palette := ⟨false⟩
  registry requests world :=
    (.ok (requests.map fun request =>
      { path := request.path, registryPath := "gopkgs.com/b", version := -3, revision := "1",
        allowsUnpinned := true }), world)
  names _ _ world := ((.ok "b", []), world)
  downloader _ _ world := (.fetched, world)
  gate _ world := ((.ok .accept, ∅), world)

/-- A directory with one file of a library. -/
def oneLibrary : Session Unit where
  files := .directory [("p", .directory [("a.go",
    .file 0o644 (.text "package widget\nimport \"github.com/a/b\"\n"))])]
  world := ()

set_option maxRecDepth 10000 in
/-- Though revisions are preferred, the library gets the bare path. -/
theorem unpublished_library_bare :
    ∃ summary s',
      onDirectory unpublished { preferRevisions := true } "p" oneLibrary =
        (.ok (.committed summary), s') ∧
      summary.pins.get? "github.com/a/b" = some "gopkgs.com/b" ∧
      (∃ record, s'.cache.record? (.latest "github.com/a/b") = some record ∧
        record.IsLibraryPath "gopkgs.com/b") ∧
      onDirectory unpublished { preferRevisions := false } "p" oneLibrary =
        (.ok (.committed summary), s') := by
  have hcheck : commits (fun summary =>
      summary.pins.get? "github.com/a/b" == some "gopkgs.com/b")
        (onDirectory unpublished { preferRevisions := true } "p" oneLibrary).1 = true := by
    decide +kernel
  have hloads : loads (fun package => package.name != "main") oneLibrary.files "p" = true := by
    decide +kernel
  obtain ⟨⟨result, s'⟩, hrun⟩ :
      ∃ pass, onDirectory unpublished { preferRevisions := true } "p" oneLibrary = pass := ⟨_, rfl⟩
  rw [hrun] at hcheck
  obtain ⟨summary, rfl, hpinned⟩ := exists_committed_of_commits hcheck
  rw [beq_iff_eq] at hpinned
  obtain ⟨hpaths, hsame⟩ := onDirectory_library unpublished { preferRevisions := true } "p"
    oneLibrary fun package notices hload => by
      rw [loads, hload, bne_iff_ne] at hloads
      exact .inr ⟨rfl, hloads⟩
  refine ⟨summary, s', hrun, hpinned, hpaths summary s' hrun _ _ hpinned, ?_⟩
  rw [← hrun]
  exact hsame false

end Pass

end PinnedImports
