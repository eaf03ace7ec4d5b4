import DocumentClient.Status
import DocumentClient.Wire.Bucket
import DocumentClient.Wire.Query
import DocumentClient.Wire.Subdocument

/-!
# Methods of the services

The calls that a client can make, with the message that each one sends and what it gets back.
All but one are answered by a single message; a query is answered by a stream of chunks that
ends well, ends with a status or never ends.
-/

namespace DocumentClient

inductive Method where
  | get
  | probe
  | insert
  | upsert
  | replace
  | remove
  | lookupIn
  | mutateIn
  | query
  | createBucket
  | updateBucket
  | deleteBucket
  | listBuckets
deriving DecidableEq

/-- How a stream goes on after its last item. -/
inductive StreamEnd where
  | closed
  | stalled
deriving DecidableEq

/-- The chunks of an answer, or a status that ends it, and how the stream goes on. -/
structure ChunkStream where
  items : List (Except Status Wire.QueryResponse)
  ending : StreamEnd := .closed

/-- What arrives of a stream over a connection: a status of success ends it well. -/
def ChunkStream.delivered (s : ChunkStream) : ChunkStream :=
  let items := s.items.map (·.mapError Status.delivered)
  let goesOn : Except Status Wire.QueryResponse → Bool
    | .error status => status.code ≠ .success
    | .ok _ => true
  if items.all goesOn then ⟨items, s.ending⟩ else ⟨items.takeWhile goesOn, .closed⟩

namespace Method

def name : Method → String
  | .get => "get"
  | .probe => "exists"
  | .insert => "insert"
  | .upsert => "upsert"
  | .replace => "replace"
  | .remove => "remove"
  | .lookupIn => "lookup_in"
  | .mutateIn => "mutate_in"
  | .query => "query"
  | .createBucket => "create_bucket"
  | .updateBucket => "update_bucket"
  | .deleteBucket => "delete_bucket"
  | .listBuckets => "list_buckets"

def all : List Method :=
  [.get, .probe, .insert, .upsert, .replace, .remove, .lookupIn, .mutateIn, .query,
    .createBucket, .updateBucket, .deleteBucket, .listBuckets]

/-- The method with a name. -/
def ofName? (name : String) : Option Method := all.find? fun m => m.name = name

/-- The path of a method on the server. -/
def path : Method → String
  | .get => "/stellar.kv.v1.KvService/Get"
  | .probe => "/stellar.kv.v1.KvService/Exists"
  | .insert => "/stellar.kv.v1.KvService/Insert"
  | .upsert => "/stellar.kv.v1.KvService/Upsert"
  | .replace => "/stellar.kv.v1.KvService/Replace"
  | .remove => "/stellar.kv.v1.KvService/Remove"
  | .lookupIn => "/stellar.kv.v1.KvService/LookupIn"
  | .mutateIn => "/stellar.kv.v1.KvService/MutateIn"
  | .query => "/stellar.query.v1.QueryService/Query"
  | .createBucket => "/stellar.admin.bucket.v1.BucketAdminService/CreateBucket"
  | .updateBucket => "/stellar.admin.bucket.v1.BucketAdminService/UpdateBucket"
  | .deleteBucket => "/stellar.admin.bucket.v1.BucketAdminService/DeleteBucket"
  | .listBuckets => "/stellar.admin.bucket.v1.BucketAdminService/ListBuckets"

/-- The message that a method sends. -/
abbrev Request : Method → Type
  | .get => Wire.GetRequest
  | .probe => Wire.ExistsRequest
  | .insert => Wire.InsertRequest
  | .upsert => Wire.UpsertRequest
  | .replace => Wire.ReplaceRequest
  | .remove => Wire.RemoveRequest
  | .lookupIn => Wire.LookupInRequest
  | .mutateIn => Wire.MutateInRequest
  | .query => Wire.QueryRequest
  | .createBucket | .updateBucket => Wire.BucketRequest
  | .deleteBucket => Wire.DeleteBucketRequest
  | .listBuckets => Wire.EmptyMessage

/-- The message, or one of the messages, that a method is answered with. -/
abbrev Message : Method → Type
  | .get => Wire.GetResponse
  | .probe => Wire.ExistsResponse
  | .insert | .upsert | .replace | .remove => Wire.MutationResponse
  | .lookupIn => Wire.LookupInResponse
  | .mutateIn => Wire.MutateInResponse
  | .query => Wire.QueryResponse
  | .createBucket | .updateBucket | .deleteBucket => Wire.EmptyMessage
  | .listBuckets => Wire.ListBucketsResponse

/-- What a call comes back with when it is accepted. -/
abbrev Reply : Method → Type
  | .query => ChunkStream
  | m => m.Message

def requestLayout : (m : Method) → Wire.Layout m.Request
  | .get => Wire.GetRequest.layout
  | .probe => Wire.ExistsRequest.layout
  | .insert => Wire.InsertRequest.layout
  | .upsert => Wire.UpsertRequest.layout
  | .replace => Wire.ReplaceRequest.layout
  | .remove => Wire.RemoveRequest.layout
  | .lookupIn => Wire.LookupInRequest.layout
  | .mutateIn => Wire.MutateInRequest.layout
  | .query => Wire.QueryRequest.layout
  | .createBucket => Wire.BucketRequest.layout "CreateBucketRequest"
  | .updateBucket => Wire.BucketRequest.layout "UpdateBucketRequest"
  | .deleteBucket => Wire.DeleteBucketRequest.layout
  | .listBuckets => Wire.EmptyMessage.layout "ListBucketsRequest"

def messageLayout : (m : Method) → Wire.Layout m.Message
  | .get => Wire.GetResponse.layout
  | .probe => Wire.ExistsResponse.layout
  | .insert => Wire.MutationResponse.layout "InsertResponse"
  | .upsert => Wire.MutationResponse.layout "UpsertResponse"
  | .replace => Wire.MutationResponse.layout "ReplaceResponse"
  | .remove => Wire.MutationResponse.layout "RemoveResponse"
  | .lookupIn => Wire.LookupInResponse.layout
  | .mutateIn => Wire.MutateInResponse.layout
  | .query => Wire.QueryResponse.layout
  | .createBucket => Wire.EmptyMessage.layout "CreateBucketResponse"
  | .updateBucket => Wire.EmptyMessage.layout "UpdateBucketResponse"
  | .deleteBucket => Wire.EmptyMessage.layout "DeleteBucketResponse"
  | .listBuckets => Wire.ListBucketsResponse.layout

/-- The message that a peer's octets hold; octets that hold none fail the call. -/
def readMessage (m : Method) (octets : Bytes) : Except Status m.Message :=
  match m.messageLayout.decode octets with
  | .ok message => .ok message
  | .error e => .error ⟨.internal, e.message, []⟩

/-- The reply that consists of one message. -/
def replyOf : (m : Method) → Except Status m.Message → Except Status m.Reply
  | .query, x => .ok { items := [x] }
  | .get, x | .probe, x | .insert, x | .upsert, x | .replace, x | .remove, x | .lookupIn, x
  | .mutateIn, x | .createBucket, x | .updateBucket, x | .deleteBucket, x
  | .listBuckets, x => x

/-- What arrives of a reply over a connection. A call that ends with success but without a
message fails, as far as it expects one. -/
def delivered (m : Method) (reply : Except Status m.Reply) : Except Status m.Reply :=
  match m, reply.mapError Status.delivered with
  | .query, .ok stream => .ok stream.delivered
  | .query, .error status => if status.code = .success then .ok ⟨[], .closed⟩ else .error status
  | _, .ok message => .ok message
  | _, .error status =>
    if status.code = .success then .error ⟨.internal, "Missing response message.", []⟩
    else .error status

end Method
end DocumentClient
