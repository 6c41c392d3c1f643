import PinnedImports.Analysis
import PinnedImports.Proofs.Dictionary

/-!
# The judgement of a package without its order

The analysis goes through the imports of a package one after another and looks a package name up the
first time it needs it. `learned` is what it knows of package names in the end. With these names
every import can be judged by itself (`reason?`): the analysis keeps exactly the imports that have a
reason (`keptAmong_eq`), disables exactly their paths (`mem_disabled_ofFiles`), and has a key for
exactly the repositories of the other paths (`mem_keys_ofFiles`).
-/

set_option autoImplicit false

namespace PinnedImports.Analysis

variable {σ : Type}

/-! ## The names that are learned -/

/-- The package names that are known when all imports have been judged. -/
def learned (lookup : String → σ → NameAnswer × σ) :
    List (SourceFile × Go.Import) → Dictionary NameAnswer → σ → Dictionary NameAnswer
  | [], known, _ => known
  | (file, spec) :: rest, known, world =>
    match Repository.ofImportPath? spec.path with
    | none => learned lookup rest known world
    | some repository =>
      let (_, known, world) := judge lookup file spec repository known world
      learned lookup rest known world

/-- The package names that the judgement of some files learns. -/
def names (lookup : String → σ → NameAnswer × σ) (files : List SourceFile) (world : σ) :
    Dictionary NameAnswer :=
  learned lookup (occurrences files) ∅ world

/-- The name under which an import is used: the one it gives, or else that of its package. -/
def effectiveName? (names : Dictionary NameAnswer) (spec : Go.Import) : Option NameAnswer :=
  match spec.name with
  | some name => some (.ok name)
  | none => names.get? spec.path

/-- Why an import has to keep its path, with the given package names. -/
def reason? (names : Dictionary NameAnswer) (file : SourceFile) (spec : Go.Import) :
    Option KeepReason :=
  match Repository.ofImportPath? spec.path with
  | none => none
  | some repository =>
    if repository.isCanonical then some .canonical
    else
      match effectiveName? names spec with
      | some (.ok name) => keepReason? file name
      | some (.error message) => some (.unknownName message)
      | none => none

/-- Every name of the first dictionary is one of the second. -/
def Extends (known more : Dictionary NameAnswer) : Prop :=
  ∀ path answer, known.get? path = some answer → more.get? path = some answer

theorem Extends.refl (known : Dictionary NameAnswer) : Extends known known := fun _ _ h => h

theorem Extends.trans {a b c : Dictionary NameAnswer} (hab : Extends a b) (hbc : Extends b c) :
    Extends a c := fun path answer h => hbc path answer (hab path answer h)

variable {lookup : String → σ → NameAnswer × σ}

theorem nameOf_get? (path : String) (known : Dictionary NameAnswer) (world : σ) :
    (nameOf lookup path known world).2.1.get? path =
      some (nameOf lookup path known world).1 := by
  unfold nameOf
  cases h : known.get? path with
  | some answer => exact h
  | none => exact Dictionary.get?_insert_self ..

theorem nameOf_extends (path : String) (known : Dictionary NameAnswer) (world : σ) :
    Extends known (nameOf lookup path known world).2.1 := by
  intro other answer hother
  unfold nameOf
  cases h : known.get? path with
  | some _ => exact hother
  | none =>
    have hne : other ≠ path := by
      rintro rfl
      rw [h] at hother
      simp at hother
    exact (Dictionary.get?_insert_of_ne known _ hne).trans hother

theorem nameOf_get?_cases {path other : String} {known : Dictionary NameAnswer} {world : σ}
    {answer : NameAnswer}
    (h : (nameOf lookup path known world).2.1.get? other = some answer) :
    known.get? other = some answer ∨ ∃ w, (lookup other w).1 = answer := by
  unfold nameOf at h
  cases hpath : known.get? path with
  | some stored =>
    rw [hpath] at h
    exact .inl h
  | none =>
    rw [hpath] at h
    simp only [Dictionary.get?_insert] at h
    split at h
    · rename_i heq
      rw [heq]
      exact .inr ⟨world, Option.some.inj h⟩
    · exact .inl h

theorem judge_of_canonical {file : SourceFile} {spec : Go.Import} {repository : Repository}
    (h : repository.isCanonical = true) (known : Dictionary NameAnswer) (world : σ) :
    judge lookup file spec repository known world = (some .canonical, known, world) := by
  rw [judge, if_pos h]

theorem judge_of_named {file : SourceFile} {spec : Go.Import} {repository : Repository}
    (h : ¬ repository.isCanonical = true) {name : String} (hname : spec.name = some name)
    (known : Dictionary NameAnswer) (world : σ) :
    judge lookup file spec repository known world = (keepReason? file name, known, world) := by
  rw [judge, if_neg h, hname]

theorem judge_of_unnamed {file : SourceFile} {spec : Go.Import} {repository : Repository}
    (h : ¬ repository.isCanonical = true) (hname : spec.name = none)
    (known : Dictionary NameAnswer) (world : σ) :
    judge lookup file spec repository known world =
      ((match (nameOf lookup spec.path known world).1 with
        | .ok name => keepReason? file name
        | .error message => some (.unknownName message)),
        (nameOf lookup spec.path known world).2) := by
  rw [judge, if_neg h, hname]
  cases h : (nameOf lookup spec.path known world).1 <;> simp only [h]

theorem judge_extends (file : SourceFile) (spec : Go.Import) (repository : Repository)
    (known : Dictionary NameAnswer) (world : σ) :
    Extends known (judge lookup file spec repository known world).2.1 := by
  by_cases hcanonical : repository.isCanonical = true
  · rw [judge_of_canonical hcanonical]
    exact .refl known
  · cases hname : spec.name with
    | some name =>
      rw [judge_of_named hcanonical hname]
      exact .refl known
    | none =>
      rw [judge_of_unnamed hcanonical hname]
      exact nameOf_extends spec.path known world

/-- An import is judged by the names that are known then, and they stay known. -/
theorem judge_eq_reason? {file : SourceFile} {spec : Go.Import} {repository : Repository}
    (hrepository : Repository.ofImportPath? spec.path = some repository)
    (known : Dictionary NameAnswer) (world : σ) {names : Dictionary NameAnswer}
    (hnames : Extends (judge lookup file spec repository known world).2.1 names) :
    (judge lookup file spec repository known world).1 = reason? names file spec := by
  rw [reason?, hrepository]
  by_cases hcanonical : repository.isCanonical = true
  · rw [judge_of_canonical hcanonical]
    simp only [hcanonical, if_true]
  · cases hname : spec.name with
    | some name =>
      rw [judge_of_named hcanonical hname, effectiveName?, hname]
      simp only [hcanonical, Bool.false_eq_true, if_false]
    | none =>
      rw [judge_of_unnamed hcanonical hname] at hnames ⊢
      rw [effectiveName?, hname]
      simp only [hcanonical, Bool.false_eq_true, if_false, hnames _ _ (nameOf_get? spec.path known world)]
      cases (nameOf lookup spec.path known world).1 <;> rfl

theorem learned_cons {file : SourceFile} {spec : Go.Import} {repository : Repository}
    (h : Repository.ofImportPath? spec.path = some repository)
    (rest : List (SourceFile × Go.Import)) (known : Dictionary NameAnswer) (world : σ) :
    learned lookup ((file, spec) :: rest) known world =
      learned lookup rest (judge lookup file spec repository known world).2.1
        (judge lookup file spec repository known world).2.2 := by
  rw [learned, h]

theorem learned_cons_of_none {file : SourceFile} {spec : Go.Import}
    (h : Repository.ofImportPath? spec.path = none) (rest : List (SourceFile × Go.Import))
    (known : Dictionary NameAnswer) (world : σ) :
    learned lookup ((file, spec) :: rest) known world = learned lookup rest known world := by
  rw [learned, h]

theorem learned_extends (found : List (SourceFile × Go.Import)) (known : Dictionary NameAnswer)
    (world : σ) : Extends known (learned lookup found known world) := by
  induction found generalizing known world with
  | nil => exact .refl known
  | cons entry rest ih =>
    obtain ⟨file, spec⟩ := entry
    cases hrepository : Repository.ofImportPath? spec.path with
    | none =>
      rw [learned_cons_of_none hrepository]
      exact ih known world
    | some repository =>
      rw [learned_cons hrepository]
      exact (judge_extends file spec repository known world).trans (ih _ _)

/-- **The imports that are kept are those with a reason.** -/
theorem keptAmong_eq (found : List (SourceFile × Go.Import)) (known : Dictionary NameAnswer)
    (world : σ) :
    (keptAmong lookup found known world).1 = found.filterMap fun entry =>
      (reason? (learned lookup found known world) entry.1 entry.2).map
        (⟨entry.2.path, entry.1.path, ·⟩) := by
  induction found generalizing known world with
  | nil => rfl
  | cons entry rest ih =>
    obtain ⟨file, spec⟩ := entry
    rw [keptAmong, List.filterMap_cons]
    cases hrepository : Repository.ofImportPath? spec.path with
    | none =>
      rw [learned_cons_of_none hrepository]
      simp only [reason?, hrepository, Option.map_none]
      rw [ih known world]
      rfl
    | some repository =>
      rw [learned_cons hrepository]
      have hreason : (judge lookup file spec repository known world).1 =
          reason? (learned lookup rest (judge lookup file spec repository known world).2.1
            (judge lookup file spec repository known world).2.2) file spec :=
        judge_eq_reason? hrepository known world (learned_extends rest _ _)
      simp only [← hreason]
      rw [ih]
      cases (judge lookup file spec repository known world).1 <;> rfl

/-! ## Where names come from -/

/-- Every name that is learned was known before or is an answer of the lookup. -/
theorem learned_get? {found : List (SourceFile × Go.Import)} {known : Dictionary NameAnswer}
    {world : σ} {path : String} {answer : NameAnswer}
    (h : (learned lookup found known world).get? path = some answer) :
    known.get? path = some answer ∨ ∃ w, (lookup path w).1 = answer := by
  induction found generalizing known world with
  | nil => exact .inl h
  | cons entry rest ih =>
    obtain ⟨file, spec⟩ := entry
    cases hrepository : Repository.ofImportPath? spec.path with
    | none =>
      rw [learned_cons_of_none hrepository] at h
      exact ih h
    | some repository =>
      rw [learned_cons hrepository] at h
      rcases ih h with hknown | hlookup
      · -- Judging one import asks at most for the name of its own path.
        by_cases hcanonical : repository.isCanonical = true
        · rw [judge_of_canonical hcanonical] at hknown
          exact .inl hknown
        · cases hname : spec.name with
          | some name =>
            rw [judge_of_named hcanonical hname] at hknown
            exact .inl hknown
          | none =>
            rw [judge_of_unnamed hcanonical hname] at hknown
            exact nameOf_get?_cases hknown
      · exact .inr hlookup

/-- An import that is not of the registry's namespace has an effective name once it is judged. -/
theorem exists_effectiveName {found : List (SourceFile × Go.Import)}
    (known : Dictionary NameAnswer) (world : σ) {file : SourceFile} {spec : Go.Import}
    (hmem : (file, spec) ∈ found) {repository : Repository}
    (hrepository : Repository.ofImportPath? spec.path = some repository)
    (hcanonical : ¬ repository.isCanonical = true) :
    ∃ answer, effectiveName? (learned lookup found known world) spec = some answer := by
  cases hname : spec.name with
  | some name => exact ⟨.ok name, by rw [effectiveName?, hname]⟩
  | none =>
    rw [effectiveName?, hname]
    induction found generalizing known world with
    | nil => simp at hmem
    | cons entry rest ih =>
      rcases List.mem_cons.1 hmem with rfl | hrest
      · rw [learned_cons hrepository, judge_of_unnamed hcanonical hname]
        exact ⟨_, learned_extends rest _ _ _ _ (nameOf_get? spec.path known world)⟩
      · obtain ⟨otherFile, other⟩ := entry
        cases hother : Repository.ofImportPath? other.path with
        | none =>
          rw [learned_cons_of_none hother]
          exact ih known world hrest
        | some repository' =>
          rw [learned_cons hother]
          exact ih _ _ hrest

/-! ## The judgement of a package -/

variable {files : List SourceFile} {world : σ}

theorem mem_occurrences {file : SourceFile} {spec : Go.Import} :
    (file, spec) ∈ occurrences files ↔ file ∈ files ∧ spec ∈ file.source.imports := by
  simp [occurrences]

/-- **A path is disabled if it is kept at one of its places.** -/
theorem mem_disabled_ofFiles {path : String} :
    (ofFiles lookup files world).1.disabled.contains path = true ↔
      ∃ file ∈ files, ∃ spec ∈ file.source.imports, spec.path = path ∧
        (reason? (names lookup files world) file spec).isSome := by
  have hdisabled : (ofFiles lookup files world).1.disabled =
      Dictionary.ofList
        ((keptAmong lookup (occurrences files) ∅ world).1.map fun entry => (entry.path, ())) := rfl
  rw [hdisabled, Dictionary.contains_ofList, keptAmong_eq, ← names]
  constructor
  · rintro ⟨entry, hentry, hpath⟩
    obtain ⟨kept, hkept, rfl⟩ := List.mem_map.1 hentry
    obtain ⟨⟨file, spec⟩, hmem, hreason⟩ := List.mem_filterMap.1 hkept
    obtain ⟨reason, hsome, rfl⟩ := Option.map_eq_some_iff.1 hreason
    obtain ⟨hfile, hspec⟩ := mem_occurrences.1 hmem
    exact ⟨file, hfile, spec, hspec, hpath, Option.isSome_of_eq_some hsome⟩
  · rintro ⟨file, hfile, spec, hspec, hpath, hreason⟩
    obtain ⟨reason, hreason⟩ := Option.isSome_iff_exists.1 hreason
    refine ⟨(spec.path, ()), List.mem_map.2 ⟨⟨spec.path, file.path, reason⟩, ?_, rfl⟩, hpath⟩
    refine List.mem_filterMap.2 ⟨(file, spec), mem_occurrences.2 ⟨hfile, hspec⟩, ?_⟩
    rw [hreason]
    rfl

theorem not_mem_disabled_ofFiles {path : String} :
    (ofFiles lookup files world).1.disabled.contains path = false ↔
      ∀ file ∈ files, ∀ spec ∈ file.source.imports, spec.path = path →
        reason? (names lookup files world) file spec = none := by
  rw [← Bool.not_eq_true, mem_disabled_ofFiles]
  constructor
  · intro hnot file hfile spec hspec hpath
    rw [← Option.not_isSome_iff_eq_none]
    exact fun hreason => hnot ⟨file, hfile, spec, hspec, hpath, hreason⟩
  · rintro hnone ⟨file, hfile, spec, hspec, hpath, hreason⟩
    rw [hnone file hfile spec hspec hpath] at hreason
    simp at hreason

theorem mem_keys_addEligible (disabled : StringSet) (eligible : Dictionary StringSet)
    (path key : String) :
    key ∈ (addEligible disabled eligible path).keys ↔
      key ∈ eligible.keys ∨ disabled.contains path = false ∧
        ∃ repository, Repository.ofImportPath? path = some repository ∧ repository.key = key := by
  unfold addEligible
  split
  · rename_i hdisabled
    simp [hdisabled]
  · rename_i hdisabled
    rw [Bool.not_eq_true] at hdisabled
    cases hrepository : Repository.ofImportPath? path with
    | none => simp
    | some repository =>
      simp only [Dictionary.mem_keys, Dictionary.get?_insert, hdisabled, true_and,
        Option.some.injEq, exists_eq_left']
      by_cases hkey : key = repository.key
      · simp [hkey]
      · simp [hkey, Ne.symm hkey]

theorem mem_keys_foldl_addEligible (disabled : StringSet) (paths : List String)
    (eligible : Dictionary StringSet) (key : String) :
    key ∈ (paths.foldl (addEligible disabled) eligible).keys ↔
      key ∈ eligible.keys ∨ ∃ path ∈ paths, disabled.contains path = false ∧
        ∃ repository, Repository.ofImportPath? path = some repository ∧ repository.key = key := by
  induction paths generalizing eligible with
  | nil => simp
  | cons path rest ih =>
    rw [List.foldl_cons, ih, mem_keys_addEligible, or_assoc]
    simp only [List.mem_cons, exists_eq_or_imp]

/-- **The keys are those of the repositories of paths that are not disabled.** -/
theorem mem_keys_ofFiles {key : String} :
    key ∈ (ofFiles lookup files world).1.keys ↔
      ∃ file ∈ files, ∃ spec ∈ file.source.imports,
        (ofFiles lookup files world).1.disabled.contains spec.path = false ∧
        ∃ repository, Repository.ofImportPath? spec.path = some repository ∧
          repository.key = key := by
  have hkeys : (ofFiles lookup files world).1.keys =
      (((occurrences files).map fun entry => entry.2.path).foldl
        (addEligible (ofFiles lookup files world).1.disabled) ∅).keys := rfl
  rw [hkeys, mem_keys_foldl_addEligible]
  constructor
  · rintro (hempty | ⟨path, hpath, hdisabled, hrepository⟩)
    · simp [Dictionary.mem_keys] at hempty
    · obtain ⟨⟨file, spec⟩, hmem, rfl⟩ := List.mem_map.1 hpath
      obtain ⟨hfile, hspec⟩ := mem_occurrences.1 hmem
      exact ⟨file, hfile, spec, hspec, hdisabled, hrepository⟩
  · rintro ⟨file, hfile, spec, hspec, hdisabled, hrepository⟩
    refine .inr ⟨spec.path, List.mem_map.2 ⟨(file, spec), ?_, rfl⟩, hdisabled, hrepository⟩
    exact mem_occurrences.2 ⟨hfile, hspec⟩

end PinnedImports.Analysis
