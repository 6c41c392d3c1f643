import PinnedImports.Pass.Run
import PinnedImports.Proofs.Analysis
import PinnedImports.Proofs.Pass.Commit

/-!
# Runs in two worlds

A relation between the sessions of two worlds is carried through a pass over a package once it is
carried through the few things that the pass does to a session: telling, looking a name up, asking the
registry, downloading, asking the operator and writing its files (`RelatedOn`). Both passes then come
out the same (`RelatedOn.onPackage`). Where the files are the same in both worlds, this holds of whole
runs (`Related.run`). Nothing here depends on what the relation says of caches and worlds.
-/

set_option autoImplicit false

namespace PinnedImports.Analysis

/-! ## Judgements in two worlds -/

section TwoWorlds

variable {σ τ : Type} {R : σ → τ → Prop} {lookup : String → σ → NameAnswer × σ}
  {lookup' : String → τ → NameAnswer × τ}

/-- The name of a package is the same in both worlds, whether it is looked up or known. -/
theorem nameOf_related
    (h : ∀ path s t, R s t → (lookup path s).1 = (lookup' path t).1 ∧
      R (lookup path s).2 (lookup' path t).2)
    (path : String) (known : Dictionary NameAnswer) {s : σ} {t : τ} (hst : R s t) :
    (nameOf lookup path known s).1 = (nameOf lookup' path known t).1 ∧
      (nameOf lookup path known s).2.1 = (nameOf lookup' path known t).2.1 ∧
      R (nameOf lookup path known s).2.2 (nameOf lookup' path known t).2.2 := by
  unfold nameOf
  cases known.get? path with
  | some answer => exact ⟨rfl, rfl, hst⟩
  | none =>
    obtain ⟨hanswer, hafter⟩ := h path s t hst
    refine ⟨hanswer, ?_, hafter⟩
    simp only [hanswer]

theorem judge_related
    (h : ∀ path s t, R s t → (lookup path s).1 = (lookup' path t).1 ∧
      R (lookup path s).2 (lookup' path t).2)
    (file : SourceFile) (spec : Go.Import) (repository : Repository)
    (known : Dictionary NameAnswer) {s : σ} {t : τ} (hst : R s t) :
    (judge lookup file spec repository known s).1 =
        (judge lookup' file spec repository known t).1 ∧
      (judge lookup file spec repository known s).2.1 =
        (judge lookup' file spec repository known t).2.1 ∧
      R (judge lookup file spec repository known s).2.2
        (judge lookup' file spec repository known t).2.2 := by
  unfold judge
  split
  · exact ⟨rfl, rfl, hst⟩
  · cases spec.name with
    | some name => exact ⟨rfl, rfl, hst⟩
    | none =>
      obtain ⟨hanswer, hknown, hafter⟩ := nameOf_related h spec.path known hst
      generalize nameOf lookup spec.path known s = found at hanswer hknown hafter
      generalize nameOf lookup' spec.path known t = found' at hanswer hknown hafter
      obtain ⟨answer, known₁, s₁⟩ := found
      obtain ⟨answer', known₁', t₁⟩ := found'
      simp only at hanswer hknown hafter
      subst hanswer hknown
      cases answer with
      | ok name => exact ⟨rfl, rfl, hafter⟩
      | error message => exact ⟨rfl, rfl, hafter⟩

theorem keptAmong_related
    (h : ∀ path s t, R s t → (lookup path s).1 = (lookup' path t).1 ∧
      R (lookup path s).2 (lookup' path t).2)
    (found : List (SourceFile × Go.Import)) :
    ∀ (known : Dictionary NameAnswer) {s : σ} {t : τ}, R s t →
      (keptAmong lookup found known s).1 = (keptAmong lookup' found known t).1 ∧
        R (keptAmong lookup found known s).2 (keptAmong lookup' found known t).2 := by
  induction found with
  | nil =>
    intro known s t hst
    exact ⟨rfl, hst⟩
  | cons entry rest ih =>
    intro known s t hst
    obtain ⟨file, spec⟩ := entry
    rw [keptAmong, keptAmong]
    cases Repository.ofImportPath? spec.path with
    | none => exact ih known hst
    | some repository =>
      obtain ⟨hreason, hknown, hafter⟩ := judge_related h file spec repository known hst
      obtain ⟨hothers, hlast⟩ := ih (judge lookup file spec repository known s).2.1 hafter
      refine ⟨?_, ?_⟩
      · simp only [← hreason, ← hknown, hothers]
      · simp only [← hknown]
        exact hlast

/-- Lookups that answer the same in two worlds lead to the same judgement. -/
theorem ofFiles_related
    (h : ∀ path s t, R s t → (lookup path s).1 = (lookup' path t).1 ∧
      R (lookup path s).2 (lookup' path t).2)
    (files : List SourceFile) {s : σ} {t : τ} (hst : R s t) :
    (ofFiles lookup files s).1 = (ofFiles lookup' files t).1 ∧
      R (ofFiles lookup files s).2 (ofFiles lookup' files t).2 := by
  obtain ⟨hkept, hafter⟩ := keptAmong_related h (occurrences files) ∅ hst
  refine ⟨?_, hafter⟩
  unfold ofFiles
  simp only [hkept]

end TwoWorlds

end PinnedImports.Analysis

namespace PinnedImports.Pass

open Session

variable {σ τ : Type}

/-! ## Computations in two worlds -/

/-- From related sessions both computations come to the same result and to related sessions. -/
def Simulates (R : Session σ → Session τ → Prop) {α : Type} (m : StateM (Session σ) α)
    (n : StateM (Session τ) α) : Prop :=
  ∀ s t, R s t → (m s).1 = (n t).1 ∧ R (m s).2 (n t).2

section Combinators

variable {R : Session σ → Session τ → Prop} {α β : Type}

theorem Simulates.pure (a : α) :
    Simulates R (Pure.pure a : StateM (Session σ) α) (Pure.pure a) :=
  fun _ _ hst => ⟨rfl, hst⟩

theorem Simulates.bind {m : StateM (Session σ) α} {n : StateM (Session τ) α}
    {f : α → StateM (Session σ) β} {g : α → StateM (Session τ) β} (hm : Simulates R m n)
    (hf : ∀ a, Simulates R (f a) (g a)) : Simulates R (m >>= f) (n >>= g) := by
  intro s t hst
  obtain ⟨hresult, hafter⟩ := hm s t hst
  rw [run_bind, run_bind, ← hresult]
  exact hf (m s).1 (m s).2 (n t).2 hafter

end Combinators

/-- What a relation has to be carried through for commits: telling, downloading and writing. Files are
written only where they are `own` ones of the package. -/
structure CommitsRelatedOn (own : SourceFile → Prop) (R : Session σ → Session τ → Prop)
    (a : Collaborators σ) (b : Collaborators τ) : Prop where
  palette : a.palette = b.palette
  told : ∀ more, Simulates R (tell more) (tell more)
  download : ∀ path, Simulates R (download a path) (download b path)
  write : ∀ file, own file → ∀ subs, Simulates R (write a file subs) (write b file subs)

/-- What a relation has to be carried through: everything that a pass does to a session. -/
structure RelatedOn (own : SourceFile → Prop) (R : Session σ → Session τ → Prop)
    (a : Collaborators σ) (b : Collaborators τ) : Prop extends CommitsRelatedOn own R a b where
  lookup : ∀ path, Simulates R (lookup a path) (lookup b path)
  resolve : ∀ requests, Simulates R (resolve a requests) (resolve b requests)
  ask : ∀ prompt, Simulates R (ask a prompt) (ask b prompt)

/-- What a relation has to be carried through where both worlds have the same files. -/
structure Related (R : Session σ → Session τ → Prop) (a : Collaborators σ) (b : Collaborators τ) :
    Prop where
  palette : a.palette = b.palette
  files : ∀ s t, R s t → s.files = t.files
  told : ∀ more, Simulates R (tell more) (tell more)
  lookup : ∀ path, Simulates R (lookup a path) (lookup b path)
  resolve : ∀ requests, Simulates R (resolve a requests) (resolve b requests)
  download : ∀ path, Simulates R (download a path) (download b path)
  ask : ∀ prompt, Simulates R (ask a prompt) (ask b prompt)
  refusals : ∀ path, Simulates R (refusals a path) (refusals b path)
  exchange : ∀ s t files, R s t → R { s with files := files } { t with files := files }

/-! ## Commits -/

namespace CommitsRelatedOn

variable {own : SourceFile → Prop} {R : Session σ → Session τ → Prop} {a : Collaborators σ}
  {b : Collaborators τ}

theorem notify (h : CommitsRelatedOn own R a b) (notices : List Notice) :
    Simulates R (notify a notices) (notify b notices) := by
  unfold Session.notify
  rw [h.palette]
  exact h.told _

theorem undownloadable (h : CommitsRelatedOn own R a b) (entries : List (String × String)) :
    Simulates R (undownloadable a entries) (undownloadable b entries) := by
  induction entries with
  | nil => exact .pure _
  | cons entry rest ih =>
    obtain ⟨path, replacement⟩ := entry
    rw [Pass.undownloadable, Pass.undownloadable]
    apply (h.download replacement).bind
    intro outcome
    cases outcome with
    | fetched => exact ih
    | failed message => exact (h.notify _).bind fun _ => ih.bind fun _ => .pure _

theorem commit (h : CommitsRelatedOn own R a b) (dryRun verbose : Bool) (file : SourceFile)
    (hfile : own file) (subs : Dictionary String) :
    Simulates R (commit a dryRun verbose file subs) (commit b dryRun verbose file subs) := by
  -- Both commits branch alike: what they branch on is the same in both worlds.
  unfold Pass.commit
  rw [h.palette]
  split
  · exact .pure _
  split
  · exact (h.told _).bind fun _ => .pure _
  apply (h.undownloadable _).bind
  intro dropped
  simp only
  split
  · exact .pure _
  split
  · apply (h.told _).bind
    intro _
    apply (h.write file hfile _).bind
    intro outcome
    cases outcome <;> exact .pure _
  · apply (h.write file hfile _).bind
    intro outcome
    cases outcome <;> exact .pure _

theorem commitAll (h : CommitsRelatedOn own R a b) (options : Options) (pins : Dictionary String)
    (disabled : StringSet) {files : List SourceFile} (hfiles : ∀ file ∈ files, own file) :
    Simulates R (commitAll a options pins disabled files)
      (commitAll b options pins disabled files) := by
  induction files with
  | nil => exact .pure _
  | cons file rest ih =>
    obtain ⟨hfile, hrest⟩ := List.forall_mem_cons.1 hfiles
    rw [Pass.commitAll, Pass.commitAll]
    split
    · exact ih hrest
    · exact (h.commit _ _ file hfile _).bind fun _ => (ih hrest).bind fun _ => .pure _

end CommitsRelatedOn

/-! ## One pass -/

namespace RelatedOn

variable {own : SourceFile → Prop} {R : Session σ → Session τ → Prop} {a : Collaborators σ}
  {b : Collaborators τ}

theorem analyze (h : RelatedOn own R a b) (files : List SourceFile) :
    Simulates R (analyze a files) (analyze b files) :=
  fun _ _ hst => Analysis.ofFiles_related h.lookup files hst

theorem choose (h : RelatedOn own R a b) (options : Options) (package : String)
    (pairs : List (String × Registry.Record)) :
    ∀ choices, Simulates R (choose a options package pairs choices)
      (choose b options package pairs choices) := by
  induction pairs with
  | nil => exact fun choices => .pure _
  | cons pair rest ih =>
    intro choices
    obtain ⟨key, record⟩ := pair
    rw [Pass.choose, Pass.choose]
    -- Both worlds have the same record, so they skip it, ask for it or take it alike.
    split
    · exact (h.notify _).bind fun _ => ih _
    · split
      · apply (h.ask _).bind
        intro answer
        rcases answer with message | _ | _ | _
        · exact .pure _
        · exact ih _
        · exact ih _
        · exact .pure _
      · exact ih _

theorem pinEligible (h : RelatedOn own R a b) (options : Options) {package : Package}
    (hfiles : ∀ file ∈ package.files, own file) (analysis : Analysis) :
    Simulates R (pinEligible a options package analysis)
      (pinEligible b options package analysis) := by
  unfold Pass.pinEligible
  apply (h.resolve _).bind
  intro reply
  cases reply with
  | error failure => exact .pure _
  | ok records =>
    apply (h.choose options package.name _ _).bind
    intro chosen
    rcases chosen with e | _ | choices
    · exact .pure _
    · exact .pure _
    · simp only
      split
      · exact .pure _
      · exact (h.commitAll options _ _ hfiles).bind fun _ => .pure _

/-- **Related sessions are carried through a pass over a package, and both passes come out the
same.** -/
theorem onPackage (h : RelatedOn own R a b) (options : Options) {package : Package}
    (hfiles : ∀ file ∈ package.files, own file) :
    Simulates R (onPackage a options package) (onPackage b options package) := by
  unfold Pass.onPackage
  apply (h.analyze package.files).bind
  intro analysis
  apply (h.notify _).bind
  intro _
  split
  · exact .pure _
  split
  · exact (h.notify _).bind fun _ => h.pinEligible options hfiles analysis
  · exact h.pinEligible options hfiles analysis

end RelatedOn

/-! ## Runs -/

theorem onDirectory_eq (tools : Collaborators σ) (options : Options) (dir : String) (s : Session σ) :
    onDirectory tools options dir s =
      match Package.load s.files dir with
      | .error cause => (.error (.directory cause), s)
      | .ok (none, notices) => (.ok .nothing, (notify tools notices s).2)
      | .ok (some package, notices) =>
        onPackage tools options package (notify tools notices s).2 := by
  have hget : (get : StateM (Session σ) (Session σ)) s = (s, s) := rfl
  unfold onDirectory
  rw [run_bind, hget]
  rcases Package.load s.files dir with cause | ⟨package | _, notices⟩ <;> rfl

namespace Related

variable {R : Session σ → Session τ → Prop} {a : Collaborators σ} {b : Collaborators τ}

theorem write (h : Related R a b) (file : SourceFile) (subs : Dictionary String) :
    Simulates R (write a file subs) (write b file subs) := by
  intro s t hst
  -- The same file is replaced in the same tree, and the same steps are refused, so it is in both worlds
  -- or in none.
  obtain ⟨hrefuses, hasked⟩ := h.refusals file.path s t hst
  rw [write_eq, write_eq, h.files s t hst, ← hrefuses]
  cases t.files.replaceText file.path (Imports.render file.text subs file.source.imports)
    (Session.refusals a file.path s).1 with
  | ok files => exact ⟨rfl, h.exchange _ _ files hasked⟩
  | error cause =>
    refine ⟨rfl, ?_⟩
    unfold Session.notify
    rw [h.palette]
    exact (h.told _ _ _ hasked).2

/-- With the same files, every file is written in the same way. -/
theorem relatedOn (h : Related R a b) : RelatedOn (fun _ => True) R a b where
  palette := h.palette
  told := h.told
  lookup := h.lookup
  resolve := h.resolve
  download := h.download
  ask := h.ask
  write file _ subs := h.write file subs

theorem onDirectory (h : Related R a b) (options : Options) (dir : String) :
    Simulates R (onDirectory a options dir) (onDirectory b options dir) := by
  intro s t hst
  rw [onDirectory_eq, onDirectory_eq, h.files s t hst]
  rcases Package.load t.files dir with cause | ⟨_ | package, notices⟩
  · exact ⟨rfl, hst⟩
  · exact ⟨rfl, (h.relatedOn.notify notices s t hst).2⟩
  · apply h.relatedOn.onPackage options fun _ _ => trivial
    exact (h.relatedOn.notify notices s t hst).2

/-- **Related sessions are carried through a whole run, and both runs come out the same.** -/
theorem run (h : Related R a b) (options : Options) (dirs : List String) :
    Simulates R (run a options dirs) (run b options dirs) := by
  induction dirs with
  | nil => exact .pure _
  | cons dir rest ih =>
    rw [Pass.run, Pass.run]
    apply (h.onDirectory options dir).bind
    intro outcome
    rcases outcome with e | _ | summary | _
    · exact (h.relatedOn.notify _).bind fun _ => ih.bind fun _ => .pure _
    · exact ih
    · exact ih.bind fun _ => .pure _
    · exact .pure _

end Related

end PinnedImports.Pass
