import DocumentClient.Connection.Deadline
import DocumentClient.Service.Peer

/-!
# The script of a peer

How a peer that many clients share keeps what it is told and what it receives: a queue of replies
and a log of requests for every method, and beside them one log of all calls. One helper handles
the calls of all methods but one; it is told the name of the method, its log and its queue.
Queries have a way of their own, since their replies are streams.
-/

namespace DocumentClient

/-- What is scripted for a query. -/
inductive QueryScript where
  | chunks (items : List (Except Status Wire.QueryResponse))
  /-- The stream goes on after the items without giving any more. -/
  | stalled (items : List (Except Status Wire.QueryResponse))
  | fail (status : Status)

def QueryScript.reply : QueryScript → Except Status ChunkStream
  | .chunks items => .ok ⟨items, .closed⟩
  | .stalled items => .ok ⟨items, .stalled⟩
  | .fail status => .error status

namespace Method

/-- What can be scripted for a method. -/
abbrev Scripted : Method → Type
  | .query => QueryScript
  | m => Except Status m.Message

def scriptedReply : (m : Method) → m.Scripted → Except Status m.Reply
  | .query, script => script.reply
  | .get, reply | .probe, reply | .insert, reply | .upsert, reply | .replace, reply
  | .remove, reply | .lookupIn, reply | .mutateIn, reply | .createBucket, reply
  | .updateBucket, reply | .deleteBucket, reply | .listBuckets, reply => reply

end Method

structure ScriptedReplies where
  get : List (Except Status Wire.GetResponse) := []
  probe : List (Except Status Wire.ExistsResponse) := []
  insert : List (Except Status Wire.MutationResponse) := []
  upsert : List (Except Status Wire.MutationResponse) := []
  replace : List (Except Status Wire.MutationResponse) := []
  remove : List (Except Status Wire.MutationResponse) := []
  lookupIn : List (Except Status Wire.LookupInResponse) := []
  mutateIn : List (Except Status Wire.MutateInResponse) := []
  query : List QueryScript := []
  createBucket : List (Except Status Wire.EmptyMessage) := []
  updateBucket : List (Except Status Wire.EmptyMessage) := []
  deleteBucket : List (Except Status Wire.EmptyMessage) := []
  listBuckets : List (Except Status Wire.ListBucketsResponse) := []

structure RequestLogs where
  get : List Wire.GetRequest := []
  probe : List Wire.ExistsRequest := []
  insert : List Wire.InsertRequest := []
  upsert : List Wire.UpsertRequest := []
  replace : List Wire.ReplaceRequest := []
  remove : List Wire.RemoveRequest := []
  lookupIn : List Wire.LookupInRequest := []
  mutateIn : List Wire.MutateInRequest := []
  query : List Wire.QueryRequest := []
  createBucket : List Wire.BucketRequest := []
  updateBucket : List Wire.BucketRequest := []
  deleteBucket : List Wire.DeleteBucketRequest := []
  listBuckets : List Wire.EmptyMessage := []

/-- The name of a method that was called and the time that the header of the call states. -/
structure RecordedCall where
  method : String
  timeout : Option Duration
deriving DecidableEq

def RecordedCall.of (name : String) (deadline : Option String) : RecordedCall :=
  ⟨name, deadline.bind fun header => (Deadline.read header).toOption.join⟩

/-- One of the lists of a record. -/
structure Slot (σ α : Type) where
  get : σ → List α
  set : σ → List α → σ

structure Script where
  replies : ScriptedReplies := {}
  requests : RequestLogs := {}
  calls : List RecordedCall := []

namespace Script

/-- Adds to the queue of a method. -/
def push (s : Script) : (m : Method) → m.Scripted → Script
  | .get, x => { s with replies.get := s.replies.get ++ [x] }
  | .probe, x => { s with replies.probe := s.replies.probe ++ [x] }
  | .insert, x => { s with replies.insert := s.replies.insert ++ [x] }
  | .upsert, x => { s with replies.upsert := s.replies.upsert ++ [x] }
  | .replace, x => { s with replies.replace := s.replies.replace ++ [x] }
  | .remove, x => { s with replies.remove := s.replies.remove ++ [x] }
  | .lookupIn, x => { s with replies.lookupIn := s.replies.lookupIn ++ [x] }
  | .mutateIn, x => { s with replies.mutateIn := s.replies.mutateIn ++ [x] }
  | .query, x => { s with replies.query := s.replies.query ++ [x] }
  | .createBucket, x => { s with replies.createBucket := s.replies.createBucket ++ [x] }
  | .updateBucket, x => { s with replies.updateBucket := s.replies.updateBucket ++ [x] }
  | .deleteBucket, x => { s with replies.deleteBucket := s.replies.deleteBucket ++ [x] }
  | .listBuckets, x => { s with replies.listBuckets := s.replies.listBuckets ++ [x] }

/-- Takes note of a call. -/
def record (s : Script) (name : String) (deadline : Option String) : Script :=
  { s with calls := s.calls ++ [.of name deadline] }

/-- Handles a call: notes it, logs its request and answers with the first reply of its queue. -/
def respond {α β : Type} (s : Script) (name : String) (request : α) (deadline : Option String)
    (log : Slot RequestLogs α) (queue : Slot ScriptedReplies (Except Status β)) :
    Except Status β × Script :=
  let s := s.record name deadline
  let s := { s with requests := log.set s.requests (log.get s.requests ++ [request]) }
  match queue.get s.replies with
  | [] => (.error ⟨.unavailable, "no scripted response for " ++ name, []⟩, s)
  | reply :: rest => (reply, { s with replies := queue.set s.replies rest })

/-- Handles a query. -/
def respondQuery (s : Script) (request : Wire.QueryRequest) (deadline : Option String) :
    Except Status ChunkStream × Script :=
  let s := s.record "query" deadline
  let s := { s with requests.query := s.requests.query ++ [request] }
  match s.replies.query with
  | [] => (.error ⟨.unavailable, "no scripted response for query", []⟩, s)
  | script :: rest => (script.reply, { s with replies.query := rest })

/-- Receives a call. -/
def receive (s : Script) : (call : Call) → Except Status call.method.Reply × Script
  | ⟨.get, request, deadline, _⟩ =>
    s.respond "get" request deadline ⟨(·.get), fun r xs => { r with get := xs }⟩
      ⟨(·.get), fun q xs => { q with get := xs }⟩
  | ⟨.probe, request, deadline, _⟩ =>
    s.respond "exists" request deadline ⟨(·.probe), fun r xs => { r with probe := xs }⟩
      ⟨(·.probe), fun q xs => { q with probe := xs }⟩
  | ⟨.insert, request, deadline, _⟩ =>
    s.respond "insert" request deadline ⟨(·.insert), fun r xs => { r with insert := xs }⟩
      ⟨(·.insert), fun q xs => { q with insert := xs }⟩
  | ⟨.upsert, request, deadline, _⟩ =>
    s.respond "upsert" request deadline ⟨(·.upsert), fun r xs => { r with upsert := xs }⟩
      ⟨(·.upsert), fun q xs => { q with upsert := xs }⟩
  | ⟨.replace, request, deadline, _⟩ =>
    s.respond "replace" request deadline ⟨(·.replace), fun r xs => { r with replace := xs }⟩
      ⟨(·.replace), fun q xs => { q with replace := xs }⟩
  | ⟨.remove, request, deadline, _⟩ =>
    s.respond "remove" request deadline ⟨(·.remove), fun r xs => { r with remove := xs }⟩
      ⟨(·.remove), fun q xs => { q with remove := xs }⟩
  | ⟨.lookupIn, request, deadline, _⟩ =>
    s.respond "lookup_in" request deadline ⟨(·.lookupIn), fun r xs => { r with lookupIn := xs }⟩
      ⟨(·.lookupIn), fun q xs => { q with lookupIn := xs }⟩
  | ⟨.mutateIn, request, deadline, _⟩ =>
    s.respond "mutate_in" request deadline ⟨(·.mutateIn), fun r xs => { r with mutateIn := xs }⟩
      ⟨(·.mutateIn), fun q xs => { q with mutateIn := xs }⟩
  | ⟨.query, request, deadline, _⟩ => s.respondQuery request deadline
  | ⟨.createBucket, request, deadline, _⟩ =>
    s.respond "create_bucket" request deadline
      ⟨(·.createBucket), fun r xs => { r with createBucket := xs }⟩
      ⟨(·.createBucket), fun q xs => { q with createBucket := xs }⟩
  | ⟨.updateBucket, request, deadline, _⟩ =>
    s.respond "update_bucket" request deadline
      ⟨(·.updateBucket), fun r xs => { r with updateBucket := xs }⟩
      ⟨(·.updateBucket), fun q xs => { q with updateBucket := xs }⟩
  | ⟨.deleteBucket, request, deadline, _⟩ =>
    s.respond "delete_bucket" request deadline
      ⟨(·.deleteBucket), fun r xs => { r with deleteBucket := xs }⟩
      ⟨(·.deleteBucket), fun q xs => { q with deleteBucket := xs }⟩
  | ⟨.listBuckets, request, deadline, _⟩ =>
    s.respond "list_buckets" request deadline
      ⟨(·.listBuckets), fun r xs => { r with listBuckets := xs }⟩
      ⟨(·.listBuckets), fun q xs => { q with listBuckets := xs }⟩

/-- The replies that wait for calls of a method. -/
def queue (s : Script) : (m : Method) → List (Except Status m.Reply)
  | .get => s.replies.get
  | .probe => s.replies.probe
  | .insert => s.replies.insert
  | .upsert => s.replies.upsert
  | .replace => s.replies.replace
  | .remove => s.replies.remove
  | .lookupIn => s.replies.lookupIn
  | .mutateIn => s.replies.mutateIn
  | .query => s.replies.query.map QueryScript.reply
  | .createBucket => s.replies.createBucket
  | .updateBucket => s.replies.updateBucket
  | .deleteBucket => s.replies.deleteBucket
  | .listBuckets => s.replies.listBuckets

/-- The requests of a method that have been received. -/
def log (s : Script) : (m : Method) → List m.Request
  | .get => s.requests.get
  | .probe => s.requests.probe
  | .insert => s.requests.insert
  | .upsert => s.requests.upsert
  | .replace => s.requests.replace
  | .remove => s.requests.remove
  | .lookupIn => s.requests.lookupIn
  | .mutateIn => s.requests.mutateIn
  | .query => s.requests.query
  | .createBucket => s.requests.createBucket
  | .updateBucket => s.requests.updateBucket
  | .deleteBucket => s.requests.deleteBucket
  | .listBuckets => s.requests.listBuckets

end Script
end DocumentClient
