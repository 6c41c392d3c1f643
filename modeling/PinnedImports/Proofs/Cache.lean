import Mathlib.Data.List.Basic
import PinnedImports.Cache
import PinnedImports.Proofs.Dictionary

/-!
# What the cache of a run remembers

A cache only grows: a record or an outcome that is known stays as it is (`Cache.Grows`). After a
batch has been resolved there is a record for every request, and it is the one that was answered;
after a download there is an outcome for the path, and it is the one that was answered.
-/

set_option autoImplicit false

namespace PinnedImports.Cache

open Registry

variable {σ : Type}

/-- The second cache answers as the first where that has an answer. -/
structure Grows (a b : Cache) : Prop where
  records : ∀ request record, a.record? request = some record → b.record? request = some record
  downloads : ∀ path outcome, a.downloads.get? path = some outcome →
    b.downloads.get? path = some outcome

theorem Grows.refl (cache : Cache) : cache.Grows cache := ⟨fun _ _ h => h, fun _ _ h => h⟩

theorem Grows.trans {a b c : Cache} (hab : a.Grows b) (hbc : b.Grows c) : a.Grows c where
  records request record h := hbc.records request record (hab.records request record h)
  downloads path outcome h := hbc.downloads path outcome (hab.downloads path outcome h)

theorem lookup_zip_isSome {α β : Type} [BEq α] [LawfulBEq α] {as : List α} {bs : List β}
    (h : bs.length = as.length) {a : α} (ha : a ∈ as) : ((as.zip bs).lookup a).isSome = true := by
  induction as generalizing bs with
  | nil => simp at ha
  | cons first rest ih =>
    cases bs with
    | nil => simp at h
    | cons b bs =>
      rw [List.zip_cons_cons, List.lookup_cons]
      by_cases heq : a = first
      · rw [heq, beq_self_eq_true]
        rfl
      · rw [beq_false_of_ne heq]
        exact ih (Nat.succ.inj h) ((List.mem_cons.1 ha).resolve_left heq)

theorem record?_learn (cache : Cache) (batch : List Request) (records : List Record)
    (request : Request) :
    (cache.learn batch records).record? request =
      (cache.record? request).or ((batch.zip records).lookup request) := by
  rw [record?, learn, List.lookup_append, record?]

theorem grows_learn (cache : Cache) (batch : List Request) (records : List Record) :
    cache.Grows (cache.learn batch records) where
  records request record h := by rw [record?_learn, h, Option.some_or]
  downloads _ _ h := h

theorem mem_pending {cache : Cache} {requests : List Request} {request : Request} :
    request ∈ cache.pending requests ↔ request ∈ requests ∧ cache.record? request = none := by
  rw [pending, List.mem_eraseDups, List.mem_filter, Option.isNone_iff_eq_none]

theorem exists_record_of_learn {cache : Cache} {requests : List Request} {records : List Record}
    (hlength : records.length = (cache.pending requests).length) {request : Request}
    (h : request ∈ requests) :
    ∃ record, (cache.learn (cache.pending requests) records).record? request = some record := by
  rw [record?_learn]
  cases hknown : cache.record? request with
  | some record => exact ⟨record, rfl⟩
  | none =>
    rw [Option.none_or]
    exact Option.isSome_iff_exists.1 (lookup_zip_isSome hlength (mem_pending.2 ⟨h, hknown⟩))

/-- **A batch that is resolved has a record for every request, and these are the answers.** -/
theorem resolve_ok {registry : List Request → σ → Except Failure (List Record) × σ}
    {requests : List Request} {cache cache' : Cache} {world world' : σ} {records : List Record}
    (h : cache.resolve registry requests world = (.ok records, cache', world')) :
    cache.Grows cache' ∧ records = cache'.answers requests ∧
      ∀ request ∈ requests, ∃ record, cache'.record? request = some record := by
  unfold resolve at h
  split at h
  · rename_i hpending
    simp only [Prod.mk.injEq, Except.ok.injEq] at h
    obtain ⟨rfl, rfl, -⟩ := h
    refine ⟨.refl cache, rfl, fun request hrequest => ?_⟩
    rw [← Option.isSome_iff_exists, ← Option.ne_none_iff_isSome]
    intro hnone
    have hmem := mem_pending.2 ⟨hrequest, hnone⟩
    rw [hpending] at hmem
    simp at hmem
  · split at h
    · simp at h
    · split at h
      · rename_i found _ _ hlength
        simp only [Prod.mk.injEq, Except.ok.injEq] at h
        obtain ⟨rfl, rfl, -⟩ := h
        exact ⟨grows_learn _ _ _, rfl, fun request hrequest =>
          exists_record_of_learn hlength hrequest⟩
      · simp at h

/-- A registry that answers the same in a richer world is asked for the same batch, and the same
comes of it. -/
theorem resolve_map {τ : Type} (g : σ → τ)
    {registry : List Request → σ → Except Failure (List Record) × σ}
    {registry' : List Request → τ → Except Failure (List Record) × τ}
    (h : ∀ batch world, registry' batch (g world) =
      ((registry batch world).1, g (registry batch world).2))
    (requests : List Request) (cache : Cache) (world : σ) :
    cache.resolve registry' requests (g world) =
      ((cache.resolve registry requests world).1, (cache.resolve registry requests world).2.1,
        g (cache.resolve registry requests world).2.2) := by
  unfold resolve
  split
  · rfl
  · rw [h]
    generalize registry _ world = reply
    obtain ⟨failure | records, world'⟩ := reply
    · rfl
    · simp only
      split <;> rfl

/-- **The outcome of a download is remembered.** -/
theorem download_eq {downloader : String → σ → Download × σ} {path : String}
    {cache cache' : Cache} {world world' : σ} {outcome : Download}
    (h : cache.download downloader path world = (outcome, cache', world')) :
    cache.Grows cache' ∧ cache'.downloads.get? path = some outcome := by
  unfold download at h
  split at h
  · rename_i known hknown
    simp only [Prod.mk.injEq] at h
    obtain ⟨rfl, rfl, -⟩ := h
    exact ⟨.refl cache, hknown⟩
  · rename_i hunknown
    simp only [Prod.mk.injEq] at h
    obtain ⟨rfl, rfl, -⟩ := h
    refine ⟨⟨fun _ _ h => h, fun other known hother => ?_⟩, Dictionary.get?_insert_self ..⟩
    have hne : other ≠ path := by
      rintro rfl
      rw [hunknown] at hother
      simp at hother
    exact (Dictionary.get?_insert_of_ne cache.downloads _ hne).trans hother

end PinnedImports.Cache
