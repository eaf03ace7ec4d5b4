import DocumentClient.Bucket.Settings
import DocumentClient.Connection.Configuration
import DocumentClient.Connection.Endpoint
import DocumentClient.Keyspace
import DocumentClient.Options.Resolution
import DocumentClient.Query.Consistency
import DocumentClient.Status
import DocumentClient.Subdocument.Spec

/-!
# Errors

Why a call fails: it is refused before anything is sent, the peer reports a failure or does
not answer in time, or an answer cannot be used. Each cause has a kind and a text.
-/

namespace DocumentClient

/-- Why a call or its arguments are refused on this side. -/
inductive Refusal where
  | key (why : KeyRefusal)
  | option (fault : OptionFault)
  | durability (why : DurabilityRefusal)
  | semantics (label : String)
  | spec (why : SpecRefusal)
  | bucket (why : BucketRefusal)
  | query (why : QueryRefusal)
  | address (why : AddressRefusal)
  | configuration (why : ConfigurationRefusal)
  | credentials
deriving DecidableEq

def Refusal.message : Refusal → String
  | .key why => why.message
  | .option fault => fault.message
  | .durability why => why.message
  | .semantics label => unknownSemanticsMessage label
  | .spec why => why.message
  | .bucket why => why.message
  | .query why => why.message
  | .address why => why.message
  | .configuration why => why.message
  | .credentials => "credentials are not valid header text"

inductive Error where
  | refused (why : Refusal)
  | reported (kind : ErrorKind) (text : String)
  | content (fault : ContentFault)
  | pathMissing (path : String)
  | bucketMissing (name : String)
  | late (operation : Operation) (resource : String) (limit : Duration)
  | lateQuery (statement : String) (limit : Duration)
  | alreadyQueried
  | metadataPending
  | metadataMissing
  | partitionRange (n : UInt32)
  | entryCount (got expected : Nat)
  | invalidAddress (address : String)
deriving DecidableEq

namespace Error

def kind : Error → ErrorKind
  | .refused _ => .invalidArgument
  | .reported kind _ => kind
  | .content fault => fault.kind
  | .pathMissing _ => .pathNotFound
  | .bucketMissing _ => .bucketNotFound
  | .late _ _ _ | .lateQuery _ _ => .timeout
  | .alreadyQueried => .alreadyQueried
  | .metadataPending => .failedPrecondition
  | .metadataMissing | .partitionRange _ | .entryCount _ _ => .internal
  | .invalidAddress _ => .connection

/-- What a message says after the words of its kind. -/
def detail : Error → String
  | .refused why => why.message
  | .reported _ text => text
  | .content fault => fault.message
  | .pathMissing path => path
  | .bucketMissing name => name
  | .late operation resource limit =>
    operation.name ++ " on '" ++ resource ++ "' did not complete within " ++ limit.text
  | .lateQuery statement limit =>
    "query '" ++ statement ++ "' did not complete within " ++ limit.text
  | .alreadyQueried => ""
  | .metadataPending => "metadata is available after all rows have been read"
  | .metadataMissing => "query completed without metadata"
  | .partitionRange n => "partition id " ++ Decimal.text n.toNat ++ " out of range"
  | .entryCount got expected =>
    "server returned " ++ Decimal.text got ++ " spec results for " ++ Decimal.text expected
      ++ " specs"
  | .invalidAddress address => "Invalid address: " ++ address

def code (e : Error) : String := e.kind.code

def message (e : Error) : String :=
  if e.kind = .alreadyQueried then e.kind.heading else e.kind.heading ++ ": " ++ e.detail

def retryable (e : Error) : Bool := e.kind.retryable

/-- The failure that a status reports. -/
def ofStatus (s : Status) : Error := .reported s.kind s.text

end Error

/-- A refusal as an error. -/
def orRefuse {α ρ : Type} (refusal : ρ → Refusal) : Except ρ α → Except Error α
  | .ok a => .ok a
  | .error why => .error (.refused (refusal why))

/-- A content fault as an error. -/
def orContentFault {α : Type} : Except ContentFault α → Except Error α
  | .ok a => .ok a
  | .error fault => .error (.content fault)

end DocumentClient
