import PinnedImports.Proofs.Pass.Simulation

/-!
# What is asked in a pass

A pass asks the registry and the operator about the repositories that its judgement has found
eligible, and about nothing else. So what is true of the eligible keys is true of every repository
that is asked about, in one pass (`exists_inquiries_onDirectory`) and in a whole run
(`exists_inquiries`).
-/

set_option autoImplicit false

namespace PinnedImports.Pass

open Session Registry

variable {σ : Type}

/-! ## Collaborators that agree on some questions -/

/-- The collaborators with another registry and another operator. -/
def Collaborators.asking (tools : Collaborators σ)
    (registry : List Request → σ → Except Failure (List Record) × σ)
    (gate : Confirm.Prompt → σ → (Except String Confirm.Decision × Transcript) × σ) :
    Collaborators σ :=
  { tools with registry := registry, gate := gate }

/-- The registry and the operator answer like those of the collaborators when they are asked about
repositories whose keys satisfy `P`. -/
structure AgreeOn (P : String → Prop) (tools : Collaborators σ)
    (registry : List Request → σ → Except Failure (List Record) × σ)
    (gate : Confirm.Prompt → σ → (Except String Confirm.Decision × Transcript) × σ) : Prop where
  registry : ∀ batch, (∀ request ∈ batch, P request.path) → registry batch = tools.registry batch
  gate : ∀ prompt, P prompt.source → gate prompt = tools.gate prompt

section Agreement

variable {tools : Collaborators σ} {P : String → Prop}
  {registry : List Request → σ → Except Failure (List Record) × σ}
  {gate : Confirm.Prompt → σ → (Except String Confirm.Decision × Transcript) × σ}

theorem resolve_asking (h : AgreeOn P tools registry gate) {requests : List Request}
    (hrequests : ∀ request ∈ requests, P request.path) (s : Session σ) :
    resolve (tools.asking registry gate) requests s = resolve tools requests s := by
  -- The batch holds the requests without an answer, so only some of the given ones.
  have hbatch : registry (s.cache.pending requests) = tools.registry (s.cache.pending requests) :=
    h.registry _ fun request hrequest => hrequests request (Cache.mem_pending.1 hrequest).1
  have hsame : s.cache.resolve registry requests s.world =
      s.cache.resolve tools.registry requests s.world := by
    unfold Cache.resolve
    generalize s.cache.pending requests = batch at hbatch ⊢
    cases batch with
    | nil => rfl
    | cons first rest => simp only [hbatch]
  unfold resolve
  rw [show (tools.asking registry gate).registry = registry from rfl, hsame]

theorem ask_asking (h : AgreeOn P tools registry gate) {prompt : Confirm.Prompt}
    (hprompt : P prompt.source) : ask (tools.asking registry gate) prompt = ask tools prompt := by
  funext s
  unfold ask
  rw [show (tools.asking registry gate).gate = gate from rfl, h.gate prompt hprompt]

theorem choose_asking (h : AgreeOn P tools registry gate) (options : Options) (package : String)
    {pairs : List (String × Record)} (hpairs : ∀ pair ∈ pairs, P pair.1) :
    ∀ choices, choose (tools.asking registry gate) options package pairs choices =
      choose tools options package pairs choices := by
  induction pairs with
  | nil => exact fun choices => rfl
  | cons pair rest ih =>
    intro choices
    obtain ⟨key, record⟩ := pair
    obtain ⟨hkey, hrest⟩ := List.forall_mem_cons.1 hpairs
    have hask : ∀ path, ask (tools.asking registry gate) ⟨key, path, package⟩ =
        ask tools ⟨key, path, package⟩ := fun path => ask_asking h hkey
    rw [choose, choose]
    simp only [ih hrest, hask]
    rfl

theorem undownloadable_asking (entries : List (String × String)) :
    undownloadable (tools.asking registry gate) entries = undownloadable tools entries := by
  induction entries with
  | nil => rfl
  | cons entry rest ih =>
    obtain ⟨path, replacement⟩ := entry
    rw [undownloadable, undownloadable, ih]
    rfl

theorem commitAll_asking (options : Options) (pins : Dictionary String) (disabled : StringSet)
    (files : List SourceFile) :
    commitAll (tools.asking registry gate) options pins disabled files =
      commitAll tools options pins disabled files := by
  induction files with
  | nil => rfl
  | cons file rest ih =>
    have hcommit : ∀ subs, commit (tools.asking registry gate) options.dryRun options.verbose file
        subs = commit tools options.dryRun options.verbose file subs := by
      intro subs
      unfold commit
      simp only [undownloadable_asking]
      rfl
    rw [commitAll, commitAll, ih, hcommit]

/-- **Behind the judgement only the eligible repositories are asked about.** -/
theorem pinEligible_asking (h : AgreeOn P tools registry gate) (options : Options)
    (package : Package) {analysis : Analysis} (hkeys : ∀ key ∈ analysis.keys, P key)
    (s : Session σ) :
    pinEligible (tools.asking registry gate) options package analysis s =
      pinEligible tools options package analysis s := by
  have hrequests : ∀ request ∈ analysis.keys.map Request.latest, P request.path := by
    intro request hrequest
    obtain ⟨key, hkey, rfl⟩ := List.mem_map.1 hrequest
    exact hkeys key hkey
  have hresolve := resolve_asking h hrequests s
  have hchoose : ∀ records choices, choose (tools.asking registry gate) options package.name
      (analysis.keys.zip records) choices =
        choose tools options package.name (analysis.keys.zip records) choices :=
    fun records => choose_asking h options package.name fun pair hpair =>
      hkeys pair.1 (List.of_mem_zip hpair).1
  unfold pinEligible
  simp only [run_bind, hresolve, hchoose, commitAll_asking]

theorem onPackage_asking (h : AgreeOn P tools registry gate) (options : Options)
    {package : Package} (hkeys : ∀ t, ∀ key ∈ (analyze tools package.files t).1.keys, P key)
    (s : Session σ) :
    onPackage (tools.asking registry gate) options package s =
      onPackage tools options package s := by
  have hanalyze : analyze (tools.asking registry gate) package.files s =
      analyze tools package.files s := rfl
  have hnotify : ∀ notices, notify (tools.asking registry gate) notices =
      notify tools notices := fun _ => rfl
  have hpin := pinEligible_asking h options package (hkeys s)
  unfold onPackage
  simp only [run_bind, hanalyze, hnotify]
  generalize analyze tools package.files s = judged at hpin ⊢
  split
  · rfl
  split
  · simp only [run_bind]
    exact hpin _
  · exact hpin _

theorem onDirectory_asking (h : AgreeOn P tools registry gate) (options : Options) (dir : String)
    (s : Session σ)
    (hkeys : ∀ package notices, Package.load s.files dir = .ok (some package, notices) →
      ∀ t, ∀ key ∈ (analyze tools package.files t).1.keys, P key) :
    onDirectory (tools.asking registry gate) options dir s = onDirectory tools options dir s := by
  rw [onDirectory_eq, onDirectory_eq]
  rcases hload : Package.load s.files dir with cause | ⟨_ | package, notices⟩
  · rfl
  · rfl
  · exact onPackage_asking h options (hkeys package notices hload) _

theorem run_asking (h : AgreeOn P tools registry gate) (options : Options)
    (hkeys : ∀ files t, ∀ key ∈ (analyze tools files t).1.keys, P key) (dirs : List String) :
    run (tools.asking registry gate) options dirs = run tools options dirs := by
  induction dirs with
  | nil => rfl
  | cons dir rest ih =>
    have hdir : onDirectory (tools.asking registry gate) options dir =
        onDirectory tools options dir :=
      funext fun s => onDirectory_asking h options dir s fun package _ _ => hkeys package.files
    rw [run, run, hdir, ih]
    rfl

end Agreement

/-! ## The log of what is asked -/

/-- What the registry or the operator is asked. -/
inductive Inquiry where
  | batch (requests : List Request)
  | prompt (prompt : Confirm.Prompt)

/-- The repositories that are asked about. -/
def Inquiry.keys : Inquiry → List String
  | batch requests => requests.map (·.path)
  | prompt p => [p.source]

/-- The collaborators with every inquiry that satisfies `keep` written down behind the world's
state. -/
def Collaborators.loggingSome (tools : Collaborators σ) (keep : Inquiry → Bool) :
    Collaborators (σ × List Inquiry) where
  palette := tools.palette
  registry requests world :=
    ((tools.registry requests world.1).1, (tools.registry requests world.1).2,
      world.2 ++ [.batch requests].filter keep)
  names root path world :=
    ((tools.names root path world.1).1, (tools.names root path world.1).2, world.2)
  downloader root path world :=
    ((tools.downloader root path world.1).1, (tools.downloader root path world.1).2, world.2)
  gate prompt world :=
    ((tools.gate prompt world.1).1, (tools.gate prompt world.1).2,
      world.2 ++ [.prompt prompt].filter keep)
  disk path world :=
    ((tools.disk path world.1).1, (tools.disk path world.1).2, world.2)

/-- The collaborators with every inquiry written down behind the world's state. -/
def Collaborators.loggingInquiries (tools : Collaborators σ) : Collaborators (σ × List Inquiry) :=
  tools.loggingSome fun _ => true

/-- The session with a log of inquiries. -/
def Session.withInquiries (log : List Inquiry) (s : Session σ) : Session (σ × List Inquiry) where
  files := s.files
  transcript := s.transcript
  cache := s.cache
  world := (s.world, log)

/-- The second session is the first with a log of inquiries that all satisfy `keep`. -/
def HasLog (keep : Inquiry → Bool) (s : Session σ) (t : Session (σ × List Inquiry)) : Prop :=
  ∃ log : List Inquiry, t = s.withInquiries log ∧ ∀ inquiry ∈ log, keep inquiry = true

section Log

variable (tools : Collaborators σ) (keep : Inquiry → Bool)

theorem forall_mem_append_filter {log more : List Inquiry}
    (h : ∀ inquiry ∈ log, keep inquiry = true) :
    ∀ inquiry ∈ log ++ more.filter keep, keep inquiry = true := by
  intro inquiry hinquiry
  rcases List.mem_append.1 hinquiry with hmem | hmem
  · exact h inquiry hmem
  · exact (List.mem_filter.1 hmem).2

theorem resolve_loggingSome (requests : List Request) :
    Simulates (HasLog keep) (resolve tools requests)
      (resolve (tools.loggingSome keep) requests) := by
  rintro s _ ⟨log, rfl, hlog⟩
  unfold resolve Cache.resolve
  simp only [Session.withInquiries]
  generalize s.cache.pending requests = batch
  cases batch with
  | nil => exact ⟨rfl, log, rfl, hlog⟩
  | cons first rest =>
    have hkept : ∀ inquiry ∈ log ++ [.batch (first :: rest)].filter keep, keep inquiry = true :=
      forall_mem_append_filter keep hlog
    simp only [Collaborators.loggingSome]
    generalize tools.registry (first :: rest) s.world = reply
    obtain ⟨failure | records, world⟩ := reply
    · exact ⟨rfl, _, rfl, hkept⟩
    · by_cases hlength : records.length = (first :: rest).length
      · simp only [hlength, if_true]
        exact ⟨trivial, _, rfl, hkept⟩
      · simp only [hlength, if_false]
        exact ⟨trivial, _, rfl, hkept⟩

theorem related_loggingSome : Related (HasLog keep) tools (tools.loggingSome keep) where
  palette := rfl
  files := by
    rintro s _ ⟨log, rfl, -⟩
    rfl
  told := by
    rintro more s _ ⟨log, rfl, hlog⟩
    exact ⟨rfl, log, rfl, hlog⟩
  lookup := by
    rintro path s _ ⟨log, rfl, hlog⟩
    exact ⟨rfl, log, rfl, hlog⟩
  resolve := resolve_loggingSome tools keep
  download := by
    rintro path s _ ⟨log, rfl, hlog⟩
    unfold download Cache.download
    simp only [Session.withInquiries]
    cases s.cache.downloads.get? path with
    | some outcome => exact ⟨rfl, log, rfl, hlog⟩
    | none => exact ⟨rfl, log, rfl, hlog⟩
  ask := by
    rintro prompt s _ ⟨log, rfl, hlog⟩
    exact ⟨rfl, _, rfl, forall_mem_append_filter keep hlog⟩
  refusals := by
    rintro path s _ ⟨log, rfl, hlog⟩
    exact ⟨rfl, log, rfl, hlog⟩
  exchange := by
    rintro s _ files ⟨log, rfl, hlog⟩
    exact ⟨log, rfl, hlog⟩

/-- Where all inquiries are about keys that satisfy `P`, writing only these down is writing all
down. -/
theorem agreeOn_loggingInquiries {P : String → Prop}
    (hkeep : ∀ inquiry : Inquiry, (∀ key ∈ inquiry.keys, P key) → keep inquiry = true) :
    AgreeOn P (tools.loggingSome keep) tools.loggingInquiries.registry
      tools.loggingInquiries.gate where
  registry batch hbatch := by
    have hkept : keep (.batch batch) = true := hkeep _ (by simpa [Inquiry.keys] using hbatch)
    funext world
    simp [Collaborators.loggingInquiries, Collaborators.loggingSome, hkept]
  gate prompt hprompt := by
    have hkept : keep (.prompt prompt) = true := hkeep _ (by simpa [Inquiry.keys] using hprompt)
    funext world
    simp [Collaborators.loggingInquiries, Collaborators.loggingSome, hkept]

end Log

open Classical in
/-- **What holds of the eligible keys holds of every repository that a run asks about**, and writing
the inquiries down changes nothing else. -/
theorem exists_inquiries (tools : Collaborators σ) (options : Options) {P : String → Prop}
    (hkeys : ∀ {τ : Type} (lookup : String → τ → Analysis.NameAnswer × τ) (files : List SourceFile)
      (world : τ), ∀ key ∈ (Analysis.ofFiles lookup files world).1.keys, P key)
    (dirs : List String) (s : Session σ) :
    ∃ log : List Inquiry, (∀ inquiry ∈ log, ∀ key ∈ inquiry.keys, P key) ∧
      run tools.loggingInquiries options dirs (s.withInquiries []) =
        ((run tools options dirs s).1, (run tools options dirs s).2.withInquiries log) := by
  let keep : Inquiry → Bool := fun inquiry => decide (∀ key ∈ inquiry.keys, P key)
  have hsame : run tools.loggingInquiries options dirs = run (tools.loggingSome keep) options dirs :=
    run_asking (agreeOn_loggingInquiries tools keep fun inquiry => decide_eq_true) options
      (fun files t => hkeys _ files t) dirs
  obtain ⟨hsummary, log, hlast, hlog⟩ :=
    (related_loggingSome tools keep).run options dirs s (s.withInquiries []) ⟨[], rfl, by simp⟩
  rw [hsame]
  exact ⟨log, fun inquiry hinquiry => of_decide_eq_true (hlog inquiry hinquiry),
    Prod.ext hsummary.symm hlast⟩

open Classical in
/-- The same of one pass, where it holds of the eligible keys of its package. -/
theorem exists_inquiries_onDirectory (tools : Collaborators σ) (options : Options)
    {P : String → Prop} (dir : String) (s : Session σ)
    (hkeys : ∀ package notices, Package.load s.files dir = .ok (some package, notices) →
      ∀ {τ : Type} (lookup : String → τ → Analysis.NameAnswer × τ) (world : τ),
        ∀ key ∈ (Analysis.ofFiles lookup package.files world).1.keys, P key) :
    ∃ log : List Inquiry, (∀ inquiry ∈ log, ∀ key ∈ inquiry.keys, P key) ∧
      onDirectory tools.loggingInquiries options dir (s.withInquiries []) =
        ((onDirectory tools options dir s).1,
          (onDirectory tools options dir s).2.withInquiries log) := by
  let keep : Inquiry → Bool := fun inquiry => decide (∀ key ∈ inquiry.keys, P key)
  have hsame : onDirectory tools.loggingInquiries options dir (s.withInquiries []) =
      onDirectory (tools.loggingSome keep) options dir (s.withInquiries []) :=
    onDirectory_asking (agreeOn_loggingInquiries tools keep fun inquiry => decide_eq_true) options
      dir _ fun package notices hload t => hkeys package notices hload _ t
  obtain ⟨hresult, log, hlast, hlog⟩ :=
    (related_loggingSome tools keep).onDirectory options dir s (s.withInquiries [])
      ⟨[], rfl, by simp⟩
  rw [hsame]
  exact ⟨log, fun inquiry hinquiry => of_decide_eq_true (hlog inquiry hinquiry),
    Prod.ext hresult.symm hlast⟩

end PinnedImports.Pass
