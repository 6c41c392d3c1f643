import PinnedImports.Json.Reader
import PinnedImports.Registry.Record

/-!
# The registry's wire format

A response is a JSON list of records, one for each request. A record is an object with the known
members in any order, each at most once and each with a default, among others that are passed over;
or a list of their values in order. `decodeRecords` reads a response; the failures of a whole
lookup are `Failure`.
-/

set_option autoImplicit false

namespace PinnedImports.Registry

/-- Failure of a registry lookup. -/
inductive Failure where
  /-- The request got no response. -/
  | transport (host message : String)
  /-- The registry answered with a status other than success. -/
  | status (code : Nat) (host body : String)
  /-- The response is not the expected JSON. -/
  | undecodable (fault : Json.Fault) (body : String)
  /-- The response has another number of records than there were requests. -/
  | mismatch (expected got : Nat)
  /-- The registry reported an error for the one repository asked for. -/
  | refused (path message : String)
  deriving Repr, DecidableEq

/-- What is said about a response that cannot be read. It tells the kind of the fault in words of its
own and not, as decoders do, the line and the column, so nothing should depend on this text. -/
def faultMessage : Json.Fault → String
  | .endOfText => "the text ends inside a value"
  | .malformed => "the text is not JSON"
  | .unexpectedShape => "a value has an unexpected type"

/-- The failure as it is told to the operator. -/
def Failure.message : Failure → String
  | transport host message => "registry request to " ++ host ++ " failed: " ++ message
  | status code host body => toString code ++ " status code from " ++ host ++ ": " ++ body
  | undecodable fault body =>
    "error decoding registry response: " ++ faultMessage fault ++ "\nResponse:\n" ++ body ++ ": " ++
      faultMessage fault
  | mismatch expected got =>
    "registry returned " ++ toString got ++ " records for " ++ toString expected ++ " requests"
  | refused path message => "gopkgs can't find package " ++ path ++ ": " ++ message

/-! ## Records -/

/-- The known members of a record, in the order of the list form. -/
inductive Member where
  | path
  | registryPath
  | version
  | revision
  | allowsUnpinned
  | error
  | documentationPrefix
  deriving Repr, DecidableEq

namespace Member

/-- All members, in the order of the list form. -/
def all : List Member :=
  [path, registryPath, version, revision, allowsUnpinned, error, documentationPrefix]

/-- The name of a member in the object form. -/
def name : Member → String
  | path => "path"
  | registryPath => "gopkgs_path"
  | version => "version"
  | revision => "revision"
  | allowsUnpinned => "allows_unpinned"
  | error => "error"
  | documentationPrefix => "documentation_prefix"

/-- Reads a member's value into a record. -/
def read (m : Member) (r : Record) : Json.Reader Record := fun cs =>
  let set {α : Type} (value : Json.Reader α) (put : α → Record) :
      Except Json.Fault (Record × List Char) :=
    match value cs with
    | .ok (v, rest) => .ok (put v, rest)
    | .error f => .error f
  match m with
  | path => set Json.string fun v => { r with path := v }
  | registryPath => set Json.string fun v => { r with registryPath := v }
  | version => set Json.int64 fun v => { r with version := v }
  | revision => set Json.string fun v => { r with revision := v }
  | allowsUnpinned => set Json.bool fun v => { r with allowsUnpinned := v }
  | error => set Json.string fun v => { r with error := v }
  | documentationPrefix => set Json.string fun v => { r with documentationPrefix := v }

end Member

/-- A record while it is read, with the members that have been seen. -/
structure Draft where
  record : Record
  seen : List Member

/-- Reads the member of a given name: a known one once, any other is passed over. -/
def readMember (d : Draft) (name : String) : Json.Reader Draft := fun cs =>
  match Member.all.find? (fun m => m.name == name) with
  | some m =>
    if d.seen.contains m then .error .unexpectedShape
    else do
      let (_, rest) ← Json.expect ':' .malformed cs
      let (record, rest) ← m.read d.record rest
      return (⟨record, m :: d.seen⟩, rest)
  | none => do
    let (_, rest) ← Json.expect ':' .malformed cs
    let (_, rest) ← Json.skipValue rest
    return (d, rest)

/-- Reads the list form: the values of the members in order, with any number left out at the end.
`first` tells whether none has been read. -/
def readPositional : List Member → Bool → Record → Json.Reader Record
  | [], _, r, cs => do
    let (_, rest) ← Json.expect ']' .malformed cs
    return (r, rest)
  | m :: ms, first, r, cs =>
    match Json.skipBlanks cs with
    | [] => .error .endOfText
    | c :: rest =>
      if c = ']' then .ok (r, rest)
      else if first then do
        let (r, rest) ← m.read r (c :: rest)
        readPositional ms false r rest
      else if c = ',' then
        match Json.skipBlanks rest with
        | [] => .error .endOfText
        | ']' :: _ => .error .malformed
        | rest => do
          let (r, rest) ← m.read r rest
          readPositional ms false r rest
      else .error .malformed

/-- Reads a record in either form. -/
def readRecord : Json.Reader Record := fun cs =>
  match Json.skipBlanks cs with
  | '{' :: rest => do
    let (d, rest) ← Json.membersWithin readMember (rest.length + 1) true ⟨{ }, []⟩ rest
    return (d.record, rest)
  | '[' :: rest => readPositional Member.all true { } rest
  | other => Json.otherShape other

/-- The records of a response to `expected` requests. -/
def decodeRecords (body : String) (expected : Nat) : Except Failure (List Record) :=
  match Json.ofText (Json.list readRecord) body with
  | .error fault => .error (.undecodable fault body)
  | .ok records =>
    if records.length = expected then .ok records
    else .error (.mismatch expected records.length)

/-- The record of a single repository; an error that it reports is a failure. -/
def single (path : String) : List Record → Except Failure Record
  | [] => .error (.mismatch 1 0)
  | r :: _ => if r.error.isEmpty then .ok r else .error (.refused path r.error)

end PinnedImports.Registry
