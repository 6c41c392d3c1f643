import PinnedImports.Dictionary
import PinnedImports.Registry.Wire

/-!
# What a run remembers

Within one run no repository is asked for twice and no path is downloaded twice, whatever came of
it. A cache keeps the records that the registry gave and the outcomes of downloads.
-/

set_option autoImplicit false

namespace PinnedImports

open Registry

/-- The outcome of a download: a message when it failed. -/
inductive Download where
  | fetched
  | failed (message : String)
deriving DecidableEq

/-- What is told of a path that could not be downloaded. -/
def downloadMessage (path message : String) : String :=
  "couldn't download " ++ path ++ ": " ++ message

/-- The records and downloads of a run so far. -/
structure Cache where
  records : List (Request × Record) := []
  downloads : Dictionary Download := ∅

namespace Cache

instance : EmptyCollection Cache := ⟨⟨[], ∅⟩⟩

/-- The record of a request that has been answered. -/
def record? (cache : Cache) (request : Request) : Option Record := cache.records.lookup request

/-- The requests that have not been answered yet, each once and in the order they come. -/
def pending (cache : Cache) (requests : List Request) : List Request :=
  (requests.filter fun request => (cache.record? request).isNone).eraseDups

/-- The cache with the answers to a batch of requests. -/
def learn (cache : Cache) (requests : List Request) (records : List Record) : Cache :=
  { cache with records := cache.records ++ requests.zip records }

/-- One record for each request; a request without an answer gets an empty one. -/
def answers (cache : Cache) (requests : List Request) : List Record :=
  requests.map fun request => (cache.record? request).getD { }

variable {σ : Type}

/-- One record for each request. The registry is asked for the pending ones in one batch, if there
are any; when it fails or answers with another number of records, nothing is remembered. -/
def resolve (registry : List Request → σ → Except Failure (List Record) × σ)
    (requests : List Request) (cache : Cache) (world : σ) :
    Except Failure (List Record) × Cache × σ :=
  match cache.pending requests with
  | [] => (.ok (cache.answers requests), cache, world)
  | batch =>
    match registry batch world with
    | (.error failure, world) => (.error failure, cache, world)
    | (.ok records, world) =>
      -- Another number of records cannot be matched to the requests.
      if records.length = batch.length then
        let cache := cache.learn batch records
        (.ok (cache.answers requests), cache, world)
      else (.error (.mismatch batch.length records.length), cache, world)

/-- The outcome of downloading a path; it is downloaded only the first time. -/
def download (downloader : String → σ → Download × σ) (path : String) (cache : Cache)
    (world : σ) : Download × Cache × σ :=
  match cache.downloads.get? path with
  | some outcome => (outcome, cache, world)
  | none =>
    let (outcome, world) := downloader path world
    (outcome, { cache with downloads := cache.downloads.insert path outcome }, world)

end Cache

end PinnedImports
