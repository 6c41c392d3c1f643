import PinnedImports.Proofs.Batches

/-!
# The records of a batch and the requests they answer

A call asks the registry only for what the cache does not know, and each such request once. So the
reply is shorter than the list of requests and in another order, and every record has to find its
way back. `Cache.resolve_aligned` says for any reply that either each request gets its own record,
the one in the cache or else the one that stands in the reply where the request stands in the batch,
or the call fails and the cache is what it was.
-/

set_option autoImplicit false

namespace PinnedImports.Cache

open Registry

variable {σ : Type}

/-! ## Replies -/

/-- A batch is served: there is nothing to ask for, or the registry sends one record for each of its
requests. -/
inductive Serves (registry : List Request → σ → Except Failure (List Record) × σ) :
    List Request → σ → List Record → σ → Prop where
  | nothing (world : σ) : Serves registry [] world [] world
  | reply {batch : List Request} {world world' : σ} {records : List Record} (hne : batch ≠ [])
      (h : registry batch world = (.ok records, world')) (hlength : records.length = batch.length) :
      Serves registry batch world records world'

/-- A batch is refused: the registry fails, or it sends another number of records. -/
inductive Refuses (registry : List Request → σ → Except Failure (List Record) × σ) :
    List Request → σ → Failure → σ → Prop where
  | failure {batch : List Request} {world world' : σ} {failure : Failure} (hne : batch ≠ [])
      (h : registry batch world = (.error failure, world')) :
      Refuses registry batch world failure world'
  | mismatch {batch : List Request} {world world' : σ} {records : List Record} (hne : batch ≠ [])
      (h : registry batch world = (.ok records, world')) (hlength : records.length ≠ batch.length) :
      Refuses registry batch world (.mismatch batch.length records.length) world'

variable {registry : List Request → σ → Except Failure (List Record) × σ}

theorem Serves.length_eq {batch : List Request} {world world' : σ} {reply : List Record}
    (h : Serves registry batch world reply world') : reply.length = batch.length := by
  cases h with
  | nothing => rfl
  | reply _ _ hlength => exact hlength

theorem learn_nil (cache : Cache) : cache.learn [] [] = cache := by
  rw [learn, List.zip_nil_left, List.append_nil]

/-- A call learns the reply to its batch and answers from what it knows then, or it fails and learns
nothing. -/
theorem resolve_cases (registry : List Request → σ → Except Failure (List Record) × σ)
    (requests : List Request) (cache : Cache) (world : σ) :
    (∃ reply world', Serves registry (cache.pending requests) world reply world' ∧
      cache.resolve registry requests world =
        (.ok ((cache.learn (cache.pending requests) reply).answers requests),
          cache.learn (cache.pending requests) reply, world')) ∨
    ∃ failure world', Refuses registry (cache.pending requests) world failure world' ∧
      cache.resolve registry requests world = (.error failure, cache, world') := by
  unfold resolve
  cases hpending : cache.pending requests with
  | nil => exact .inl ⟨[], world, .nothing world, by rw [learn_nil]⟩
  | cons first rest =>
    have hne : first :: rest ≠ [] := List.cons_ne_nil _ _
    simp only
    rcases hreply : registry (first :: rest) world with ⟨failure | records, world'⟩
    · exact .inr ⟨failure, world', .failure hne hreply, rfl⟩
    · by_cases hlength : records.length = (first :: rest).length
      · refine .inl ⟨records, world', .reply hne hreply hlength, ?_⟩
        simp only [if_pos hlength]
      · refine .inr ⟨_, world', .mismatch hne hreply hlength, ?_⟩
        simp only [if_neg hlength]

/-! ## Places in the batch -/

/-- Looked up by name, an element of the second list is the one at the first place of its name. -/
theorem lookup_zip_eq_getElem? {α β : Type} [BEq α] [LawfulBEq α] {as : List α} (bs : List β)
    {a : α} (ha : a ∈ as) : (as.zip bs).lookup a = bs[as.idxOf a]? := by
  induction as generalizing bs with
  | nil => simp at ha
  | cons first rest ih =>
    cases bs with
    | nil => simp
    | cons b bs =>
      rw [List.zip_cons_cons, List.lookup_cons]
      by_cases heq : a = first
      · rw [heq, beq_self_eq_true, List.idxOf_cons_self]
        rfl
      · rw [beq_false_of_ne heq, List.idxOf_cons_ne rest (Ne.symm heq), List.getElem?_cons_succ]
        exact ih bs ((List.mem_cons.1 ha).resolve_left heq)

/-- Each request has its own record: the one that the cache holds, or else the one that stands in
the reply where the request stands first in the batch. -/
structure Aligned (cache : Cache) (requests : List Request) (reply records : List Record) :
    Prop where
  length_eq : records.length = requests.length
  of_known : ∀ (i : Nat) (request : Request) (record : Record), requests[i]? = some request →
    cache.record? request = some record → records[i]? = some record
  of_pending : ∀ (i : Nat) (request : Request), requests[i]? = some request →
    cache.record? request = none →
      (cache.pending requests).idxOf request < reply.length ∧
        records[i]? = reply[(cache.pending requests).idxOf request]?

/-- What is answered from a cache that has learnt the reply to its batch. -/
theorem aligned_answers {cache : Cache} {requests : List Request} {reply : List Record}
    (hlength : reply.length = (cache.pending requests).length) :
    Aligned cache requests reply
      ((cache.learn (cache.pending requests) reply).answers requests) := by
  have hget : ∀ {i : Nat} {request : Request}, requests[i]? = some request →
      ((cache.learn (cache.pending requests) reply).answers requests)[i]? =
        (cache.record? request).or (((cache.pending requests).zip reply).lookup request) := by
    intro i request hi
    rw [← record?_learn]
    have hlearnt : ∀ request ∈ requests, ∃ record,
        (cache.learn (cache.pending requests) reply).record? request = some record :=
      fun request hrequest => exists_record_of_learn hlength hrequest
    exact (getElem?_answers hlearnt hi).1
  refine ⟨by rw [answers, List.length_map], fun i request record hi hknown => ?_,
    fun i request hi hunknown => ?_⟩
  · rw [hget hi, hknown, Option.some_or]
  · have hmem : request ∈ cache.pending requests :=
      mem_pending.2 ⟨List.mem_of_getElem? hi, hunknown⟩
    refine ⟨hlength ▸ List.idxOf_lt_length_of_mem hmem, ?_⟩
    rw [hget hi, hunknown, Option.none_or, lookup_zip_eq_getElem? reply hmem]

/-! ## Alignment -/

/-- **Each request gets its own record, or nothing changes.** For every cache, list of requests and
registry: if the batch is served, the call gives one record for each request, in their order. That
of a known request is the record in the cache, that of any other one stands in the reply where the
request stands in the batch, and no request is left to a default record, whichever that would be. If
the registry fails or sends another number of records, the call fails with that failure and the
cache is as it was. -/
theorem resolve_aligned (registry : List Request → σ → Except Failure (List Record) × σ)
    (requests : List Request) (cache : Cache) (world : σ) :
    (∃ reply records cache' world',
      Serves registry (cache.pending requests) world reply world' ∧
        cache.resolve registry requests world = (.ok records, cache', world') ∧
        Aligned cache requests reply records ∧
        ∀ fallback : Record,
          records = requests.map fun request => (cache'.record? request).getD fallback) ∨
    ∃ failure world', Refuses registry (cache.pending requests) world failure world' ∧
      cache.resolve registry requests world = (.error failure, cache, world') := by
  rcases resolve_cases registry requests cache world with
    ⟨reply, world', hserves, hrun⟩ | ⟨failure, world', hrefuses, hrun⟩
  · refine .inl ⟨reply, _, _, world', hserves, hrun, aligned_answers hserves.length_eq,
      fun fallback => List.map_congr_left fun request hrequest => ?_⟩
    -- Behind the call there is a record for every request, so the fallback makes no difference.
    obtain ⟨record, hrecord⟩ := exists_record_of_learn hserves.length_eq hrequest
    rw [hrecord, Option.getD_some, Option.getD_some]
  · exact .inr ⟨failure, world', hrefuses, hrun⟩

/-- A repeated request and a known one between two new ones: the reply has two records, and the four
answers are put together from them and the cache. -/
example :
    let registry (batch : List Request) (_ : Unit) : Except Failure (List Record) × Unit :=
      (.ok (batch.map fun request => { path := request.path, version := 2 }), ())
    let cache := learn ∅ [.latest "b"] [{ path := "b", version := 1 }]
    (cache.resolve registry [.latest "c", .latest "b", .latest "a", .latest "c"] ()).1 =
      .ok [{ path := "c", version := 2 }, { path := "b", version := 1 },
        { path := "a", version := 2 }, { path := "c", version := 2 }] := by
  rfl

end PinnedImports.Cache
