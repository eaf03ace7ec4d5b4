import DocumentClient.Handle
import DocumentClient.Options.Typed
import DocumentClient.Service.Exchange
import DocumentClient.Subdocument.Result

/-!
# Documents of a collection

The operations on the documents of one collection. Each one is prepared here: its key, its
options, its content and its specs are checked in this order, and only a call that passes can
be sent.
-/

namespace DocumentClient

structure GetResult where
  cas : UInt64
  /-- Seconds since the start of 1970, if the document expires. -/
  expiry : Option Nat
  content : Document
deriving DecidableEq

structure ProbeResult where
  found : Bool
  cas : UInt64
deriving DecidableEq

structure MutationResult where
  cas : UInt64
  token : Option MutationToken
deriving DecidableEq

/-- A version of 0 is that of no document. -/
def isVersion (cas : UInt64) : Bool := cas != 0

namespace MutationResult

def ofWire (w : Wire.MutationResponse) : Except Error MutationResult :=
  match readToken w.token with
  | .ok token => .ok ⟨w.cas, token⟩
  | .error e => .error e

end MutationResult

/-- The flags that other clients know JSON by. -/
def jsonFlags : UInt32 := 0x02000006

/-- The flags that other clients know octets by. -/
def binaryFlags : UInt32 := 0x03000000

/-- Content as it is sent. -/
def encodeContent (transcoder : Transcoder) (doc : Document) : Except Error Wire.Content :=
  match orContentFault (transcoder.encode doc) with
  | .error e => .error e
  | .ok (octets, contentType) =>
    .ok ⟨octets, contentType.toWire, if contentType = .binary then binaryFlags else jsonFlags⟩

namespace Collection

/-- The transcoder of a call: its own, else the collection's, else the configured one. -/
def transcoderFor (c : Collection) (configuration : Configuration) (options : CallOptions) :
    Transcoder :=
  (options.transcoder.or c.transcoder).getD configuration.transcoder

def limit (configuration : Configuration) (fields : RequestFields) : Duration :=
  fields.timeout?.getD configuration.kvTimeout

def durability (fields : RequestFields) : Except Error (Option Wire.DurabilitySpec) :=
  orRefuse .durability fields.durability

/-- A valid key's target and the resolved options. -/
def start (c : Collection) (operation : Operation) (key : String) (options : CallOptions) :
    Except Error (Wire.Target × RequestFields) := do
  orRefuse .key (checkKey key)
  let fields ← orRefuse .option (options.resolve operation)
  return (c.keyspace.target key, fields)

/-- Fetches a document. -/
def get (c : Collection) (configuration : Configuration) (key : String)
    (options : CallOptions) : Except Error (Exchange GetResult) := do
  let (target, fields) ← c.start .get key options
  return {
    operation := .get
    resource := key
    limit := limit configuration fields
    method := .get
    request := { target, project := (fields.texts? .project).getD [] }
    read := fun reply => do
      let content ← orContentFault <|
        (c.transcoderFor configuration options).decode reply.content.octets
          (.ofWire reply.content.format)
      let expiry := (reply.expiry.filter fun n => 0 < n).map fun n => n.toInt.toNat
      return ⟨reply.cas, expiry, content⟩ }

/-- Asks whether a document is there. -/
def probe (c : Collection) (configuration : Configuration) (key : String)
    (options : CallOptions) : Except Error (Exchange ProbeResult) := do
  let (target, fields) ← c.start .probe key options
  return {
    operation := .probe
    resource := key
    limit := limit configuration fields
    method := .probe
    request := { target }
    read := fun reply => .ok ⟨reply.result, reply.cas⟩ }

/-- Creates a document that is not there yet. -/
def insert (c : Collection) (configuration : Configuration) (key : String) (doc : Document)
    (options : CallOptions) : Except Error (Exchange MutationResult) := do
  let (target, fields) ← c.start .insert key options
  let content ← encodeContent (c.transcoderFor configuration options) doc
  let durability ← durability fields
  return {
    operation := .insert
    resource := key
    limit := limit configuration fields
    method := .insert
    request := { target, content, expirySecs := fields.u32? .expirySecs, durability }
    read := MutationResult.ofWire }

/-- Creates a document or overwrites it. -/
def upsert (c : Collection) (configuration : Configuration) (key : String) (doc : Document)
    (options : CallOptions) : Except Error (Exchange MutationResult) := do
  let (target, fields) ← c.start .upsert key options
  let content ← encodeContent (c.transcoderFor configuration options) doc
  let durability ← durability fields
  return {
    operation := .upsert
    resource := key
    limit := limit configuration fields
    method := .upsert
    request :=
      { target, content, durability
        expirySecs := fields.u32? .expirySecs
        preserveExpiry := fields.bool? .preserveExpiry }
    read := MutationResult.ofWire }

/-- Overwrites a document that is there, at a given version if one is set. -/
def replace (c : Collection) (configuration : Configuration) (key : String) (doc : Document)
    (options : CallOptions) : Except Error (Exchange MutationResult) := do
  let (target, fields) ← c.start .replace key options
  let content ← encodeContent (c.transcoderFor configuration options) doc
  let durability ← durability fields
  return {
    operation := .replace
    resource := key
    limit := limit configuration fields
    method := .replace
    request :=
      { target, content, durability
        expirySecs := fields.u32? .expirySecs
        preserveExpiry := fields.bool? .preserveExpiry
        cas := fields.u64? .cas }
    read := MutationResult.ofWire }

/-- Removes a document, at a given version if one is set. -/
def remove (c : Collection) (configuration : Configuration) (key : String)
    (options : CallOptions) : Except Error (Exchange MutationResult) := do
  let (target, fields) ← c.start .remove key options
  let durability ← durability fields
  return {
    operation := .remove
    resource := key
    limit := limit configuration fields
    method := .remove
    request := { target, durability, cas := fields.u64? .cas }
    read := MutationResult.ofWire }

/-- Reads paths of a document. -/
def lookupIn (c : Collection) (configuration : Configuration) (key : String)
    (specs : List LookupSpec) (options : CallOptions) :
    Except Error (Exchange LookupResult) := do
  let (target, fields) ← c.start .lookupIn key options
  let wireSpecs ← orRefuse .spec (LookupSpec.listToWire specs)
  return {
    operation := .lookupIn
    resource := key
    limit := limit configuration fields
    method := .lookupIn
    request :=
      { target
        specs := wireSpecs
        flags := (fields.bool? .accessDeleted).map fun b => ⟨some b⟩ }
    read := LookupResult.ofWire specs }

/-- Changes paths of a document, all of them or none. -/
def mutateIn (c : Collection) (configuration : Configuration) (key : String)
    (specs : List MutateSpec) (options : CallOptions) :
    Except Error (Exchange MutateResult) := do
  let (target, fields) ← c.start .mutateIn key options
  let wireSpecs ← orRefuse .spec (MutateSpec.listToWire specs)
  let durability ← durability fields
  return {
    operation := .mutateIn
    resource := key
    limit := limit configuration fields
    method := .mutateIn
    request :=
      { target, durability
        specs := wireSpecs
        storeSemantic := fields.enum? .storeSemantic
        cas := fields.u64? .cas
        accessDeleted := fields.bool? .accessDeleted
        expirySecs := fields.u32? .expirySecs
        preserveExpiry := fields.bool? .preserveExpiry }
    read := MutateResult.ofWire specs }

end Collection
end DocumentClient
