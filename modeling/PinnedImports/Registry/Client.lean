import PinnedImports.Json.Value
import PinnedImports.Registry.Wire

/-!
# Talking to the registry

A batch of requests is posted to the registry as a JSON list. Its reply holds the records if the
status tells of success.
-/

set_option autoImplicit false

namespace PinnedImports.Registry

/-- The host of the registry unless another one is named. -/
def defaultHost : String := "gopkgs.com"

/-- The place of the registry's lookups on its host. -/
def lookupPath : String := "/api/v1/info"

/-- A request on the wire. -/
def Request.toJson (r : Request) : Json.Value :=
  .object [("path", .string r.path), ("revision", .string r.revision)]

/-- A batch of requests on the wire. -/
def requestBody (requests : List Request) : Json.Value := .list (requests.map Request.toJson)

/-- What comes back for a batch. -/
inductive Reply where
  /-- no reply, and why -/
  | lost (message : String)
  | response (status : Nat) (body : String)

/-- The records in the reply of a host to `expected` requests. -/
def Reply.records (host : String) (expected : Nat) : Reply → Except Failure (List Record)
  | .lost message => .error (.transport host message)
  | .response status body =>
    if 200 ≤ status ∧ status < 300 then decodeRecords body expected
    else .error (.status status host body)

end PinnedImports.Registry
