import DocumentClient.Error

/-!
# Results of lookups and path mutations

The entries of an answer belong to the specs in their order. An answer with another number of
entries, or with content that is not JSON, is refused as a whole. A path that failed fails
only the questions about it.
-/

namespace DocumentClient

/-- The outcome of one looked up path. -/
structure LookupField where
  path : String
  status : Option Wire.SpecStatus
  value : Option Json.Value
deriving DecidableEq

namespace LookupField

/-- The failure of a path, from its status. -/
def failureOf (path : String) (status : Wire.SpecStatus) : Error :=
  let text := if status.message = "" then path else status.message ++ " (" ++ path ++ ")"
  match StatusCode.ofInt status.code.toInt with
  | .notFound => .reported .pathNotFound text
  | .alreadyExists => .reported .pathExists text
  | .failedPrecondition => .reported .pathMismatch text
  | code => .ofStatus ⟨code, text, []⟩

def failure? (f : LookupField) : Option Error :=
  (f.status.filter fun s => s.code ≠ 0).map (failureOf f.path)

end LookupField

structure LookupResult where
  cas : UInt64
  fields : List LookupField
deriving DecidableEq

namespace LookupResult

def size (r : LookupResult) : Nat := r.fields.length

def field (r : LookupResult) (index : Nat) : Except Error LookupField :=
  match r.fields[index]? with
  | some f => .ok f
  | none => .error (.refused (.spec (.indexOutOfRange index r.size)))

/-- The value at a path, read as a shape. -/
def content (r : LookupResult) (shape : Json.Shape) (index : Nat) : Except Error Json.Value :=
  match r.field index with
  | .error e => .error e
  | .ok f =>
    match f.failure? with
    | some e => .error e
    | none =>
      match f.value with
      | some v => orContentFault (readValue shape v)
      | none => .error (.pathMissing f.path)

/-- Whether a path is there; a lookup of presence says so by its value. -/
def present (r : LookupResult) (index : Nat) : Except Error Bool :=
  match r.field index with
  | .error e => .error e
  | .ok f =>
    match f.failure? with
    | some e => if e.kind = .pathNotFound then .ok false else .error e
    | none => .ok (f.value != some (.bool false))

/-- One field of a result. -/
def readField (spec : LookupSpec) (entry : Wire.LookupEntry) : Except Error LookupField :=
  if entry.content = [] then .ok ⟨spec.path, entry.status, none⟩
  else
    match orContentFault (Serializer.plain.read entry.content) with
    | .ok v => .ok ⟨spec.path, entry.status, some v⟩
    | .error e => .error e

/-- The fields of specs and entries of the same number. -/
def readFields : List LookupSpec → List Wire.LookupEntry → Except Error (List LookupField)
  | spec :: specs, entry :: entries =>
    match readField spec entry with
    | .error e => .error e
    | .ok f =>
      match readFields specs entries with
      | .error e => .error e
      | .ok fs => .ok (f :: fs)
  | _, _ => .ok []

def ofWire (specs : List LookupSpec) (w : Wire.LookupInResponse) : Except Error LookupResult :=
  if w.specs.length ≠ specs.length then .error (.entryCount w.specs.length specs.length)
  else
    match readFields specs w.specs with
    | .error e => .error e
    | .ok fields => .ok ⟨w.cas, fields⟩

end LookupResult

/-- The token of an answer, if it carries one. -/
def readToken : Option Wire.MutationToken → Except Error (Option MutationToken)
  | none => .ok none
  | some w =>
    match MutationToken.ofWire? w with
    | some t => .ok (some t)
    | none => .error (.partitionRange w.partition)

structure MutateResult where
  cas : UInt64
  token : Option MutationToken
  contents : List (Option Json.Value)
deriving DecidableEq

namespace MutateResult

def size (r : MutateResult) : Nat := r.contents.length

/-- The value that a mutation gave back, read as a shape. -/
def content (r : MutateResult) (shape : Json.Shape) (index : Nat) : Except Error Json.Value :=
  match r.contents[index]? with
  | some (some v) => orContentFault (readValue shape v)
  | some none => .error (.refused (.spec (.noValueReturned index)))
  | none => .error (.refused (.spec (.indexOutOfRange index r.size)))

def readEntry (entry : Wire.MutateEntry) : Except Error (Option Json.Value) :=
  match entry.content with
  | none => .ok none
  | some octets => (orContentFault (Serializer.plain.read octets)).map some

def readEntries : List Wire.MutateEntry → Except Error (List (Option Json.Value))
  | [] => .ok []
  | entry :: entries =>
    match readEntry entry with
    | .error e => .error e
    | .ok v =>
      match readEntries entries with
      | .error e => .error e
      | .ok vs => .ok (v :: vs)

def ofWire (specs : List MutateSpec) (w : Wire.MutateInResponse) : Except Error MutateResult :=
  if w.specs.length ≠ specs.length then .error (.entryCount w.specs.length specs.length)
  else
    match readEntries w.specs with
    | .error e => .error e
    | .ok contents =>
      match readToken w.token with
      | .error e => .error e
      | .ok token => .ok ⟨w.cas, token, contents⟩

end MutateResult
end DocumentClient
