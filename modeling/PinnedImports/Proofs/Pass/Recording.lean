import PinnedImports.Proofs.Pass.Simulation

/-!
# Recording the operator's answers

The state of the world may be anything, so a pass does not tell what the operator answered. With
`Collaborators.recording` every answer is also written down behind the state of the world. Nothing
else changes: a pass with the recording collaborators does what the pass does without
(`onDirectory_recording`).
-/

set_option autoImplicit false

namespace PinnedImports.Pass

open Session

variable {σ : Type}

/-- Questions with the answers that the operator gave. -/
abbrev Answers : Type := List (Confirm.Prompt × Except String Confirm.Decision)

/-- The collaborators with every answer of the operator written down. -/
def Collaborators.recording (tools : Collaborators σ) : Collaborators (σ × Answers) where
  palette := tools.palette
  registry requests world :=
    ((tools.registry requests world.1).1, (tools.registry requests world.1).2, world.2)
  names root path world :=
    ((tools.names root path world.1).1, (tools.names root path world.1).2, world.2)
  downloader root path world :=
    ((tools.downloader root path world.1).1, (tools.downloader root path world.1).2, world.2)
  gate prompt world :=
    ((tools.gate prompt world.1).1, (tools.gate prompt world.1).2,
      world.2 ++ [(prompt, (tools.gate prompt world.1).1.1)])
  disk path world :=
    ((tools.disk path world.1).1, (tools.disk path world.1).2, world.2)

/-- The session with answers written down. -/
def Session.withAnswers (answers : Answers) (s : Session σ) : Session (σ × Answers) where
  files := s.files
  transcript := s.transcript
  cache := s.cache
  world := (s.world, answers)

/-- The first computation does what the second does and writes no answer down. -/
def Silent {α : Type} (m : StateM (Session (σ × Answers)) α) (n : StateM (Session σ) α) : Prop :=
  ∀ s answers, m (s.withAnswers answers) = ((n s).1, (n s).2.withAnswers answers)

/-- The first computation does what the second does and perhaps writes answers down. -/
def Mirrors {α : Type} (m : StateM (Session (σ × Answers)) α) (n : StateM (Session σ) α) : Prop :=
  ∀ s answers, ∃ more, m (s.withAnswers answers) = ((n s).1, (n s).2.withAnswers (answers ++ more))

/-! ## As simulations -/

/-- The second session is the first with certain answers written down. -/
def HasAnswers (answers : Answers) (s : Session σ) (t : Session (σ × Answers)) : Prop :=
  t = s.withAnswers answers

/-- The second session is the first with certain answers written down, and perhaps more. -/
def BeginsWith (answers : Answers) (s : Session σ) (t : Session (σ × Answers)) : Prop :=
  ∃ more, t = s.withAnswers (answers ++ more)

section Simulations

variable {α : Type} {m : StateM (Session (σ × Answers)) α} {n : StateM (Session σ) α}

theorem silent_iff : Silent m n ↔ ∀ answers, Simulates (HasAnswers answers) n m := by
  constructor
  · rintro h answers s _ rfl
    rw [h]
    exact ⟨rfl, rfl⟩
  · intro h s answers
    obtain ⟨hresult, hafter⟩ := h answers s _ rfl
    exact Prod.ext hresult.symm hafter

/-- What writes no answer down keeps those that are written down. -/
theorem Silent.simulates (h : Silent m n) (answers : Answers) :
    Simulates (BeginsWith answers) n m := by
  rintro s _ ⟨more, rfl⟩
  rw [h]
  exact ⟨rfl, more, rfl⟩

theorem mirrors_of_simulates (h : ∀ answers, Simulates (BeginsWith answers) n m) :
    Mirrors m n := by
  intro s answers
  obtain ⟨hresult, more, hafter⟩ := h answers s (s.withAnswers answers)
    ⟨[], by rw [List.append_nil]⟩
  exact ⟨more, Prod.ext hresult.symm hafter⟩

end Simulations

/-! ## What is silent -/

variable (tools : Collaborators σ)

theorem silent_tell (more : Transcript) :
    Silent (tell more : StateM (Session (σ × Answers)) Unit) (tell more) :=
  fun _ _ => rfl

theorem silent_notify (notices : List Notice) :
    Silent (notify tools.recording notices) (notify tools notices) :=
  silent_tell _

theorem silent_resolve (requests : List Registry.Request) :
    Silent (resolve tools.recording requests) (resolve tools requests) := by
  intro s answers
  unfold resolve
  simp only [withAnswers]
  rw [Cache.resolve_map (fun world => (world, answers)) fun _ _ => rfl]

theorem silent_download (path : String) :
    Silent (download tools.recording path) (download tools path) := by
  intro s answers
  unfold download Cache.download
  simp only [withAnswers]
  split <;> rfl

theorem silent_lookup (path : String) :
    Silent (lookup tools.recording path) (lookup tools path) :=
  fun _ _ => rfl

theorem silent_refusals (path : String) :
    Silent (refusals tools.recording path) (refusals tools path) :=
  fun _ _ => rfl

theorem silent_write (file : SourceFile) (subs : Dictionary String) :
    Silent (write tools.recording file subs) (write tools file subs) := by
  intro s answers
  rw [write_eq, write_eq, silent_refusals tools file.path s answers]
  simp only [withAnswers]
  split <;> rfl

theorem silent_analyze (files : List SourceFile) :
    Silent (analyze tools.recording files) (analyze tools files) := by
  apply silent_iff.2
  intro answers s t hst
  apply Analysis.ofFiles_related
  · intro path s t hst
    exact silent_iff.1 (silent_lookup tools path) answers s t hst
  · exact hst

theorem silent_commitAll (options : Options) (pins : Dictionary String) (disabled : StringSet)
    (files : List SourceFile) :
    Silent (commitAll tools.recording options pins disabled files)
      (commitAll tools options pins disabled files) := by
  apply silent_iff.2
  intro answers
  -- A commit asks nothing, so the answers stay just those that were written down.
  have hcommits : CommitsRelatedOn (fun _ => True) (HasAnswers answers) tools tools.recording :=
    { palette := rfl
      told := fun more => silent_iff.1 (silent_tell more) answers
      download := fun path => silent_iff.1 (silent_download tools path) answers
      write := fun file _ subs => silent_iff.1 (silent_write tools file subs) answers }
  exact hcommits.commitAll options pins disabled fun _ _ => trivial

/-! ## A pass -/

theorem related_recording (answers : Answers) :
    Related (BeginsWith answers) tools tools.recording where
  palette := rfl
  files := by
    rintro s _ ⟨more, rfl⟩
    rfl
  told more := (silent_tell more).simulates answers
  lookup path := (silent_lookup tools path).simulates answers
  resolve requests := (silent_resolve tools requests).simulates answers
  download path := (silent_download tools path).simulates answers
  ask := by
    rintro prompt s _ ⟨more, rfl⟩
    refine ⟨rfl, more ++ [(prompt, (ask tools prompt s).1)], ?_⟩
    rw [← List.append_assoc]
    rfl
  refusals path := (silent_refusals tools path).simulates answers
  exchange := by
    rintro s _ files ⟨more, rfl⟩
    exact ⟨more, rfl⟩

/-- **Recording changes nothing in what a pass does.** -/
theorem onDirectory_recording (options : Options) (dir : String) :
    Mirrors (onDirectory tools.recording options dir) (onDirectory tools options dir) := by
  apply mirrors_of_simulates
  intro answers
  exact (related_recording tools answers).onDirectory options dir

end PinnedImports.Pass
