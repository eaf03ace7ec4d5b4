import DocumentClient.Bucket.Manager
import DocumentClient.Collection
import DocumentClient.Connection.WebAddress
import DocumentClient.Query.Run

/-!
# Sessions

Calls made one after another through one client, with the mutations that the caller keeps track
of and the queries that it has prepared. Every public call is an action; an action changes the
session and gives an answer.
-/

namespace DocumentClient

/-- How a query is given. -/
inductive QueryInput where
  | options (o : QueryOptions)
  | arguments (args : List QueryArgument)

/-- The query for a statement, in a scope if one is given. -/
def Query.prepare (scope : Option Scope) (statement : String) (input : QueryInput) :
    Except QueryRefusal Query :=
  let place := scope.map fun s => (s.bucket, s.name)
  match input with
  | .options o => ofOptions statement (o.within place)
  | .arguments args => ofArguments place statement args

inductive Action where
  | get (c : Collection) (key : String) (options : CallOptions)
  | probe (c : Collection) (key : String) (options : CallOptions)
  | insert (c : Collection) (key : String) (doc : Document) (options : CallOptions)
  | upsert (c : Collection) (key : String) (doc : Document) (options : CallOptions)
  | replace (c : Collection) (key : String) (doc : Document) (options : CallOptions)
  | remove (c : Collection) (key : String) (options : CallOptions)
  | lookupIn (c : Collection) (key : String) (specs : List LookupSpec) (options : CallOptions)
  | mutateIn (c : Collection) (key : String) (specs : List MutateSpec) (options : CallOptions)
  | createBucket (settings : BucketSettings) (options : CallOptions)
  | updateBucket (settings : BucketSettings) (options : CallOptions)
  | dropBucket (name : String) (options : CallOptions)
  | getBucket (name : String) (options : CallOptions)
  | getAllBuckets (options : CallOptions)
  | query (id : String) (scope : Option Scope) (statement : String) (input : QueryInput)
  | nextRow (id : String)
  | nextRowAs (id : String) (shape : Json.Shape)
  | execute (id : String)
  | executeAs (id : String) (shape : Json.Shape)
  | intoStream (id : String)

inductive Answer where
  | failed (e : Error)
  | done
  | got (r : GetResult)
  | probed (r : ProbeResult)
  | mutated (r : MutationResult)
  | lookedUp (r : LookupResult)
  | changed (r : MutateResult)
  | bucket (s : BucketSettings)
  | buckets (ss : List BucketSettings)
  | prepared (run : Run)
  | row (v : Option Json.Value)
  | rows (vs : List Json.Value)
  | rowsAs (vs : List Json.Value)
  | items (xs : List (Outcome Json.Value))
  | noSuchQuery
  /-- The program breaks down in the call, and nothing is returned. -/
  | crashed

namespace Answer

/-- The answer to a call. -/
def ofOutcome {α : Type} (answer : α → Answer) : Outcome α → Answer
  | .ok a => answer a
  | .error e => .failed e
  | .crashed => .crashed

/-- The token that an answer carries. -/
def token? : Answer → Option MutationToken
  | .mutated r => r.token
  | .changed r => r.token
  | _ => none

end Answer

structure Session where
  client : Client
  peer : Peer := {}
  state : MutationState := {}
  queries : List (String × Run) := []

namespace Session

def configuration (s : Session) : Configuration := s.client.configuration

/-- Takes note of the token of an answer. -/
def track (s : Session) (a : Answer) : Session := { s with state := s.state.addToken? a.token? }

/-- The prepared query of a name. -/
def query? (s : Session) (id : String) : Option Run := Keyed.find? id s.queries

def setQuery (s : Session) (id : String) (run : Run) : Session :=
  { s with queries := Keyed.insert id run s.queries }

def dropQuery (s : Session) (id : String) : Session :=
  { s with queries := s.queries.filter fun q => q.1 ≠ id }

/-- Makes a prepared call. -/
def exchange {α : Type} (s : Session) (answer : α → Answer) (x : Except Error (Exchange α)) :
    Answer × Session :=
  let (result, peer) := Exchange.runPrepared x s.client s.peer
  (.ofOutcome answer result, { s with peer })

/-- Reads from a prepared query. -/
def read {α : Type} (s : Session) (id : String) (answer : α → Answer)
    (reader : Run → Client → Peer → Outcome α × Run × Peer) : Answer × Session :=
  match s.query? id with
  | none => (.noSuchQuery, s)
  | some run =>
    let (result, run, peer) := reader run s.client s.peer
    (.ofOutcome answer result, { s with peer }.setQuery id run)

def perform (s : Session) : Action → Answer × Session
  | .get c key options => s.exchange .got (c.get s.configuration key options)
  | .probe c key options => s.exchange .probed (c.probe s.configuration key options)
  | .insert c key doc options => s.exchange .mutated (c.insert s.configuration key doc options)
  | .upsert c key doc options => s.exchange .mutated (c.upsert s.configuration key doc options)
  | .replace c key doc options => s.exchange .mutated (c.replace s.configuration key doc options)
  | .remove c key options => s.exchange .mutated (c.remove s.configuration key options)
  | .lookupIn c key specs options =>
    s.exchange .lookedUp (c.lookupIn s.configuration key specs options)
  | .mutateIn c key specs options =>
    s.exchange .changed (c.mutateIn s.configuration key specs options)
  | .createBucket settings options =>
    s.exchange (fun _ => .done) (BucketManager.create s.configuration settings options)
  | .updateBucket settings options =>
    s.exchange (fun _ => .done) (BucketManager.update s.configuration settings options)
  | .dropBucket name options =>
    s.exchange (fun _ => .done) (BucketManager.drop s.configuration name options)
  | .getBucket name options => s.exchange .bucket (BucketManager.get s.configuration name options)
  | .getAllBuckets options => s.exchange .buckets (BucketManager.getAll s.configuration options)
  | .query id scope statement input =>
    match orRefuse .query (Query.prepare scope statement input) with
    | .error e => (.failed e, s)
    | .ok q =>
      let run := Run.ofQuery s.configuration q
      (.prepared run, s.setQuery id run)
  | .nextRow id => s.read id .row Run.nextRow
  | .nextRowAs id shape => s.read id .row fun run => run.nextRowAs shape
  | .execute id => s.read id .rows Run.execute
  | .executeAs id shape => s.read id .rowsAs fun run => run.executeAs shape
  | .intoStream id =>
    match s.query? id with
    | none => (.noSuchQuery, s)
    | some run =>
      let (xs, peer) := run.intoStream s.client s.peer
      (.items xs, { s with peer }.dropQuery id)

end Session

/-- The address to dial for a connection string, if the configuration is sound. -/
def addressOf (conn : String) (configuration : Configuration) : Except Error String := do
  orRefuse .configuration configuration.validate
  let address ← orRefuse .address (Endpoint.ofConnectionString conn)
  if WebAddress.isValid address then return address else throw (.invalidAddress address)

end DocumentClient
