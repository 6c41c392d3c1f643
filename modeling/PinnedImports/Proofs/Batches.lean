import Mathlib.Data.List.Nodup
import PinnedImports.Proofs.Pass.CacheTransparency

/-!
# The batches that a cache sends

A cache is asked again and again, and the registry behind it may answer as it likes: with other
records each time, with too few or too many, or not at all. Every call is written down with the batch
that it sends and the reply to it (`Cache.calls`). What one call does is `Cache.Resolves`; over a
whole sequence no request is answered twice, and the record of a request that has once been handed
out stays the same (`Cache.calls_answer_once`).
-/

set_option autoImplicit false

namespace PinnedImports

open Registry

namespace Cache

variable {σ : Type} {registry : List Request → σ → Except Failure (List Record) × σ}

/-! ## Calls -/

/-- A batch that the registry was asked for, and its reply. -/
structure Exchange where
  batch : List Request
  reply : Except Failure (List Record)

/-- The requests that the reply tells about: all of the batch, or none when there is not one record
for each. -/
def Exchange.answered (exchange : Exchange) : List Request :=
  match exchange.reply with
  | .ok records => if records.length = exchange.batch.length then exchange.batch else []
  | .error _ => []

/-- The registry with every exchange written down behind the state of the world. -/
def exchanging (registry : List Request → σ → Except Failure (List Record) × σ)
    (batch : List Request) (world : σ × List Exchange) :
    Except Failure (List Record) × σ × List Exchange :=
  ((registry batch world.1).1, (registry batch world.1).2,
    world.2 ++ [⟨batch, (registry batch world.1).1⟩])

/-- One call: its requests, the cache before and behind it, what was exchanged with the registry, and
what the caller got. -/
structure Call where
  requests : List Request
  before : Cache
  sent : List Exchange
  result : Except Failure (List Record)
  after : Cache

/-- The requests that the registry has answered in a call. -/
def Call.answered (call : Call) : List Request := call.sent.flatMap Exchange.answered

/-- The calls for some lists of requests, one after the other. -/
def calls (registry : List Request → σ → Except Failure (List Record) × σ) :
    List (List Request) → Cache → σ → List Call
  | [], _, _ => []
  | requests :: rest, cache, world =>
    let (result, after, world, sent) := cache.resolve (exchanging registry) requests (world, [])
    ⟨requests, cache, sent, result, after⟩ :: calls registry rest after world

/-- What the callers get for some lists of requests, one after the other. -/
def results (registry : List Request → σ → Except Failure (List Record) × σ) :
    List (List Request) → Cache → σ → List (Except Failure (List Record))
  | [], _, _ => []
  | requests :: rest, cache, world =>
    let (result, after, world) := cache.resolve registry requests world
    result :: results registry rest after world

/-- Writing exchanges down changes nothing else. -/
theorem resolve_exchanging (registry : List Request → σ → Except Failure (List Record) × σ)
    (requests : List Request) (cache : Cache) (world : σ) (log : List Exchange) :
    ∃ sent, cache.resolve (exchanging registry) requests (world, log) =
      ((cache.resolve registry requests world).1, (cache.resolve registry requests world).2.1,
        (cache.resolve registry requests world).2.2, log ++ sent) := by
  unfold resolve
  -- Without pending requests nothing is exchanged, and otherwise one batch is.
  split
  · exact ⟨[], by rw [List.append_nil]⟩
  · simp only [exchanging]
    generalize registry _ world = reply
    obtain ⟨failure | records, world'⟩ := reply
    · exact ⟨_, rfl⟩
    · simp only
      split
      · exact ⟨_, rfl⟩
      · exact ⟨_, rfl⟩

theorem map_result_calls (requestLists : List (List Request)) (cache : Cache) (world : σ) :
    (calls registry requestLists cache world).map Call.result =
      results registry requestLists cache world := by
  induction requestLists generalizing cache world with
  | nil => rfl
  | cons requests rest ih =>
    obtain ⟨sent, hsent⟩ := resolve_exchanging registry requests cache world []
    rw [calls, results, hsent, List.map_cons, ih]

theorem map_requests_calls (requestLists : List (List Request)) (cache : Cache) (world : σ) :
    (calls registry requestLists cache world).map Call.requests = requestLists := by
  induction requestLists generalizing cache world with
  | nil => rfl
  | cons requests rest ih => rw [calls, List.map_cons, ih]

/-! ## One call -/

/-- What a call sends: no batch when all requests have a record, and otherwise one batch of the
requests without a record, each once and in the order in which they are first seen. -/
def Call.SendsPending (call : Call) : Prop :=
  (call.sent = [] ∧ ∀ request ∈ call.requests, call.before.record? request ≠ none) ∨
    ∃ exchange, call.sent = [exchange] ∧ exchange.batch ≠ [] ∧ exchange.batch.Nodup ∧
      (∀ request, request ∈ exchange.batch ↔
        request ∈ call.requests ∧ call.before.record? request = none) ∧
      exchange.batch.Pairwise fun a b => call.requests.idxOf a < call.requests.idxOf b

/-- What a call does. -/
structure Call.Resolves (call : Call) : Prop where
  sends : call.SendsPending
  /-- Behind the call exactly the requests that are answered in it are known besides the old ones. -/
  known : ∀ request, call.after.record? request ≠ none ↔
    call.before.record? request ≠ none ∨ request ∈ call.answered
  grows : call.before.Grows call.after
  /-- A caller that gets records gets those that the cache holds behind the call. -/
  records : ∀ records : List Record, call.result = .ok records →
    records.length = call.requests.length ∧
      ∀ (i : Nat) (request : Request), call.requests[i]? = some request →
        records[i]? = call.after.record? request ∧ call.after.record? request ≠ none
  /-- A call that fails leaves the cache as it was. -/
  failed : ∀ failure, call.result = .error failure → call.after = call.before ∧ call.answered = []

theorem nodup_pending (cache : Cache) (requests : List Request) :
    (cache.pending requests).Nodup := by
  rw [pending]
  exact nodup_eraseDups _

theorem pairwise_idxOf_pending (cache : Cache) (requests : List Request) :
    (cache.pending requests).Pairwise fun a b => requests.idxOf a < requests.idxOf b := by
  rw [pending, eraseDups_filter]
  exact (pairwise_idxOf_eraseDups requests).filter _

/-- Behind a batch that has been answered, its requests are known besides the old ones. -/
theorem record?_learn_ne_none {cache : Cache} {batch : List Request} {records : List Record}
    (hlength : records.length = batch.length) (request : Request) :
    (cache.learn batch records).record? request ≠ none ↔
      cache.record? request ≠ none ∨ request ∈ batch := by
  rw [record?_learn, ne_eq, Option.or_eq_none_iff, not_and_or]
  apply or_congr_right
  constructor
  · intro h
    obtain ⟨record, hrecord⟩ := Option.ne_none_iff_exists'.1 h
    obtain ⟨front, back, hzip, -⟩ := List.lookup_eq_some_iff.1 hrecord
    have hmem : (request, record) ∈ batch.zip records := by
      rw [hzip]
      exact List.mem_append_right front List.mem_cons_self
    exact (List.of_mem_zip hmem).1
  · intro h
    exact Option.isSome_iff_ne_none.1 (lookup_zip_isSome hlength h)

/-- The answers to a list of requests that are all known are their records. -/
theorem getElem?_answers {cache : Cache} {requests : List Request}
    (h : ∀ request ∈ requests, ∃ record, cache.record? request = some record) {i : Nat}
    {request : Request} (hi : requests[i]? = some request) :
    (cache.answers requests)[i]? = cache.record? request ∧ cache.record? request ≠ none := by
  obtain ⟨record, hrecord⟩ := h request (List.mem_of_getElem? hi)
  rw [answers, List.getElem?_map, hi, Option.map_some, hrecord, Option.getD_some]
  exact ⟨rfl, Option.some_ne_none record⟩

/-- A call with a request that has no record sends one batch. Either the reply has a record for each
request of the batch and all of them are remembered, or the call fails and nothing is. -/
theorem exists_exchange (registry : List Request → σ → Except Failure (List Record) × σ)
    {requests : List Request} {cache : Cache} (world : σ) (hpending : cache.pending requests ≠ []) :
    ∃ reply result after world', cache.resolve (exchanging registry) requests (world, []) =
        (result, after, world', [⟨cache.pending requests, reply⟩]) ∧
      ((∃ records, reply = .ok records ∧ records.length = (cache.pending requests).length ∧
          after = cache.learn (cache.pending requests) records ∧
          result = .ok (after.answers requests)) ∨
        (Exchange.answered ⟨cache.pending requests, reply⟩ = [] ∧ after = cache ∧
          ∃ failure, result = .error failure)) := by
  unfold resolve
  split
  · rename_i hempty
    exact absurd hempty hpending
  · simp only [exchanging]
    generalize registry (cache.pending requests) world = reply
    obtain ⟨failure | records, world'⟩ := reply
    · exact ⟨_, _, _, _, rfl, .inr ⟨rfl, rfl, failure, rfl⟩⟩
    · simp only
      by_cases hlength : records.length = (cache.pending requests).length
      · rw [if_pos hlength]
        exact ⟨_, _, _, _, rfl, .inl ⟨records, rfl, hlength, rfl, rfl⟩⟩
      · rw [if_neg hlength]
        exact ⟨_, _, _, _, rfl, .inr ⟨if_neg hlength, rfl, _, rfl⟩⟩

/-- A call that goes well has a record for each request, wherever the records come from. -/
theorem records_of_resolve {requests : List Request} {cache cache' : Cache} {world world' : σ}
    {records : List Record}
    (h : cache.resolve registry requests world = (.ok records, cache', world')) :
    records.length = requests.length ∧
      ∀ (i : Nat) (request : Request), requests[i]? = some request →
        records[i]? = cache'.record? request ∧ cache'.record? request ≠ none := by
  obtain ⟨-, rfl, hknown⟩ := resolve_ok h
  constructor
  · rw [answers, List.length_map]
  · intro i request hi
    exact getElem?_answers hknown hi

/-- **What one call does.** -/
theorem resolves_of_resolve {requests : List Request} {cache : Cache} {world : σ}
    {result : Except Failure (List Record)} {after : Cache} {world' : σ} {sent : List Exchange}
    (h : cache.resolve (exchanging registry) requests (world, []) =
      (result, after, world', sent)) :
    (⟨requests, cache, sent, result, after⟩ : Call).Resolves := by
  have hrecords : ∀ records : List Record, result = .ok records →
      records.length = requests.length ∧
        ∀ (i : Nat) (request : Request), requests[i]? = some request →
          records[i]? = after.record? request ∧ after.record? request ≠ none := by
    rintro records rfl
    exact records_of_resolve h
  by_cases hpending : cache.pending requests = []
  · -- All requests are known, so they are answered from the cache and nothing is sent.
    have hrun : cache.resolve (exchanging registry) requests (world, []) =
        (.ok (cache.answers requests), cache, world, []) := by
      rw [resolve, hpending]
    rw [hrun] at h
    simp only [Prod.mk.injEq] at h
    obtain ⟨rfl, rfl, -, rfl⟩ := h
    refine ⟨.inl ⟨rfl, fun request hrequest hnone => ?_⟩, fun request => ?_, .refl cache, hrecords,
      fun failure h => ?_⟩
    · have hmem := mem_pending.2 ⟨hrequest, hnone⟩
      rw [hpending] at hmem
      simp at hmem
    · simp [Call.answered]
    · simp at h
  · obtain ⟨reply, result', after', world'', hrun, hreply⟩ :=
      exists_exchange registry world hpending
    rw [hrun] at h
    simp only [Prod.mk.injEq] at h
    obtain ⟨rfl, rfl, -, rfl⟩ := h
    -- What is sent does not depend on the reply.
    have hsends : Call.SendsPending
        ⟨requests, cache, [⟨cache.pending requests, reply⟩], result', after'⟩ :=
      .inr ⟨_, rfl, hpending, nodup_pending cache requests, fun request => mem_pending,
        pairwise_idxOf_pending cache requests⟩
    rcases hreply with ⟨records, rfl, hlength, rfl, rfl⟩ | ⟨hnone, rfl, failure, rfl⟩
    · refine ⟨hsends, fun request => ?_, grows_learn .., hrecords, fun failure h => ?_⟩
      · simp only [Call.answered, List.flatMap_singleton, Exchange.answered, if_pos hlength]
        exact record?_learn_ne_none hlength request
      · simp at h
    · refine ⟨hsends, fun request => ?_, .refl _, hrecords, fun failure' _ => ⟨rfl, ?_⟩⟩
      · simp [Call.answered, hnone]
      · simp [Call.answered, hnone]

/-- The requests that are answered in a call have not been known before, and come once each. -/
theorem Call.Resolves.fresh {call : Call} (h : call.Resolves) :
    call.answered.Nodup ∧ ∀ request ∈ call.answered, call.before.record? request = none := by
  have hsub : ∀ exchange : Exchange, exchange.answered = exchange.batch ∨
      exchange.answered = [] := by
    intro exchange
    rw [Exchange.answered]
    split
    · split
      · exact .inl rfl
      · exact .inr rfl
    · exact .inr rfl
  rcases h.sends with ⟨hsent, -⟩ | ⟨exchange, hsent, -, hnodup, hbatch, -⟩
  · rw [answered, hsent]
    simp
  · rw [answered, hsent, List.flatMap_singleton]
    rcases hsub exchange with hall | hnone
    · rw [hall]
      exact ⟨hnodup, fun request hrequest => ((hbatch request).1 hrequest).2⟩
    · rw [hnone]
      simp

/-! ## Sequences of calls -/

theorem calls_cons (registry : List Request → σ → Except Failure (List Record) × σ)
    (requests : List Request) (rest : List (List Request)) (cache : Cache) (world : σ) :
    ∃ call world', call.requests = requests ∧ call.before = cache ∧ call.Resolves ∧
      calls registry (requests :: rest) cache world =
        call :: calls registry rest call.after world' := by
  rw [calls]
  rcases hrun : cache.resolve (exchanging registry) requests (world, []) with
    ⟨result, after, world', sent⟩
  exact ⟨⟨requests, cache, sent, result, after⟩, world', rfl, rfl, resolves_of_resolve hrun, rfl⟩

/-- Every call does what a call does, and a cache only grows from one call to the next. -/
theorem calls_resolve (requestLists : List (List Request)) (cache : Cache) (world : σ) :
    ∀ call ∈ calls registry requestLists cache world, call.Resolves ∧ cache.Grows call.before := by
  induction requestLists generalizing cache world with
  | nil => simp [calls]
  | cons requests rest ih =>
    obtain ⟨first, world', -, rfl, hfirst, hcalls⟩ :=
      calls_cons registry requests rest cache world
    rw [hcalls]
    intro call hcall
    rcases List.mem_cons.1 hcall with rfl | hcall
    · exact ⟨hfirst, .refl _⟩
    · obtain ⟨hresolves, hgrows⟩ := ih first.after world' call hcall
      exact ⟨hresolves, hfirst.grows.trans hgrows⟩

/-- What is known before a call has been known at first, or it has been answered in an earlier call. -/
theorem known_iff_answered (requestLists : List (List Request)) (cache : Cache) (world : σ)
    {earlier later : List Call} {call : Call}
    (h : calls registry requestLists cache world = earlier ++ call :: later) (request : Request) :
    call.before.record? request ≠ none ↔
      cache.record? request ≠ none ∨ ∃ other ∈ earlier, request ∈ other.answered := by
  induction requestLists generalizing cache world earlier with
  | nil => simp [calls] at h
  | cons requests rest ih =>
    obtain ⟨first, world', -, rfl, hfirst, hcalls⟩ :=
      calls_cons registry requests rest cache world
    rw [hcalls] at h
    -- The call is the first one, or it is one of those behind it.
    cases earlier with
    | nil =>
      rw [List.nil_append, List.cons.injEq] at h
      rw [h.1]
      simp
    | cons other earlier =>
      rw [List.cons_append, List.cons.injEq] at h
      obtain ⟨rfl, h⟩ := h
      rw [ih first.after world' h, hfirst.known, or_assoc]
      simp only [List.mem_cons, exists_eq_or_imp]

/-- The requests that are answered in a sequence of calls come once each, and none of them has been
known at first. -/
theorem answered_once (requestLists : List (List Request)) (cache : Cache) (world : σ) :
    ((calls registry requestLists cache world).flatMap Call.answered).Nodup ∧
      ∀ request ∈ (calls registry requestLists cache world).flatMap Call.answered,
        cache.record? request = none := by
  induction requestLists generalizing cache world with
  | nil => simp [calls]
  | cons requests rest ih =>
    obtain ⟨first, world', -, rfl, hfirst, hcalls⟩ :=
      calls_cons registry requests rest cache world
    obtain ⟨hnodup, hfresh⟩ := ih first.after world'
    rw [hcalls, List.flatMap_cons, List.nodup_append]
    refine ⟨⟨hfirst.fresh.1, hnodup, ?_⟩, ?_⟩
    · -- What is answered later is not known behind the first call, so it is not answered in it.
      rintro request hrequest _ hlater rfl
      exact (hfirst.known request).2 (.inr hrequest) (hfresh request hlater)
    · intro request hrequest
      rcases List.mem_append.1 hrequest with hrequest | hrequest
      · exact hfirst.fresh.2 request hrequest
      · by_contra hknown
        exact (hfirst.known request).2 (.inl hknown) (hfresh request hrequest)

/-- A later call hands out the record that an earlier one has handed out. -/
theorem pairwise_same_records (requestLists : List (List Request)) (cache : Cache) (world : σ) :
    (calls registry requestLists cache world).Pairwise fun earlier later =>
      ∀ records records' : List Record, earlier.result = .ok records →
        later.result = .ok records' → ∀ (i j : Nat) (request : Request),
          earlier.requests[i]? = some request → later.requests[j]? = some request →
            ∃ record, records[i]? = some record ∧ records'[j]? = some record := by
  induction requestLists generalizing cache world with
  | nil => exact .nil
  | cons requests rest ih =>
    obtain ⟨first, world', -, rfl, hfirst, hcalls⟩ :=
      calls_cons registry requests rest cache world
    rw [hcalls, List.pairwise_cons]
    constructor
    · intro later hlater records records' hrecords hrecords' i j request hi hj
      obtain ⟨hresolves, hgrows⟩ := calls_resolve rest first.after world' later hlater
      obtain ⟨hget, hknown⟩ := (hfirst.records records hrecords).2 i request hi
      obtain ⟨record, hrecord⟩ := Option.ne_none_iff_exists'.1 hknown
      refine ⟨record, by rw [hget, hrecord], ?_⟩
      -- The cache only grows up to the later call and in it, so it still holds the record.
      rw [((hresolves.records records' hrecords').2 j request hj).1]
      apply hresolves.grows.records
      exact hgrows.records request record hrecord
    · exact ih first.after world'

/-- **No request is answered twice, and records that have been handed out stay.** Of any sequence of
calls, with any registry: writing its exchanges down changes no result. A call sends one batch, of the
requests without a record, each once and in first-seen order, or none when there is no such request;
known are the requests that the cache held at first or that have been answered in an earlier call. A
call that goes well gives one record for each request, and one that fails leaves the cache as it was.
No request is in two batches that were answered, and later calls that go well give for a request the
record that an earlier one gave. -/
theorem calls_answer_once (registry : List Request → σ → Except Failure (List Record) × σ)
    (requestLists : List (List Request)) (cache : Cache) (world : σ) :
    (calls registry requestLists cache world).map Call.requests = requestLists ∧
    (calls registry requestLists cache world).map Call.result =
      results registry requestLists cache world ∧
    (∀ earlier call later,
      calls registry requestLists cache world = earlier ++ call :: later →
        call.SendsPending ∧
        (∀ request, call.before.record? request ≠ none ↔
          cache.record? request ≠ none ∨ ∃ other ∈ earlier, request ∈ other.answered) ∧
        (∀ records, call.result = .ok records → records.length = call.requests.length) ∧
        ∀ failure, call.result = .error failure → call.after = call.before) ∧
    ((calls registry requestLists cache world).flatMap Call.answered).Nodup ∧
    (calls registry requestLists cache world).Pairwise fun earlier later =>
      ∀ records records' : List Record, earlier.result = .ok records →
        later.result = .ok records' → ∀ (i j : Nat) (request : Request),
          earlier.requests[i]? = some request → later.requests[j]? = some request →
            ∃ record, records[i]? = some record ∧ records'[j]? = some record := by
  refine ⟨map_requests_calls requestLists cache world, map_result_calls requestLists cache world,
    ?_, (answered_once requestLists cache world).1,
    pairwise_same_records requestLists cache world⟩
  intro earlier call later h
  have hmem : call ∈ calls registry requestLists cache world := by
    rw [h]
    exact List.mem_append_right earlier List.mem_cons_self
  obtain ⟨hresolves, -⟩ := calls_resolve requestLists cache world call hmem
  refine ⟨hresolves.sends, known_iff_answered requestLists cache world h, ?_, ?_⟩
  · intro records hrecords
    exact (hresolves.records records hrecords).1
  · intro failure hfailure
    exact (hresolves.failed failure hfailure).1

end Cache

end PinnedImports
