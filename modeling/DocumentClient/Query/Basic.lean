import DocumentClient.Query.Consistency
import DocumentClient.Text.Blank
import DocumentClient.Transcoder
import DocumentClient.Wire.Query

/-!
# Queries

A statement with its checked settings and parameters. Every setting is changed in one way only,
whether it comes from an options object, a keyword or a direct call: a change is checked, and a
refused one leaves the query as it was.
-/

namespace DocumentClient

structure Query where
  statement : String
  timeout : Option Duration := none
  readOnly : Option Bool := none
  freshness : Freshness := .unset
  adhoc : Option Bool := none
  clientContextId : Option String := none
  maxParallelism : Option UInt32 := none
  pipelineBatch : Option UInt32 := none
  pipelineCap : Option UInt32 := none
  profile : Option Profile := none
  queryContext : Option String := none
  scanCap : Option UInt32 := none
  scanWait : Option Duration := none
  flexIndex : Option Bool := none
  preserveExpiry : Option Bool := none
  metrics : Option Bool := none
  /-- Options handed on to the service, ordered by name. -/
  raw : List (String × Json.Value) := []
  positional : List Json.Value := []
  /-- Named parameters without the dollar sign, ordered by name. -/
  named : List (String × Json.Value) := []
  serializer : Option Serializer := none

/-- A change of one setting of a query. -/
inductive QueryChange where
  | timeout (d : Duration)
  | consistency (c : ScanConsistency)
  | consistentWith (state : MutationState)
  | scanWait (d : Duration)
  | clientContextId (id : String)
  | readOnly (b : Bool)
  | adhoc (b : Bool)
  | maxParallelism (n : UInt32)
  | pipelineBatch (n : UInt32)
  | pipelineCap (n : UInt32)
  | profile (p : Profile)
  | queryContext (context : String)
  | scanCap (n : UInt32)
  | flexIndex (b : Bool)
  | preserveExpiry (b : Bool)
  | metrics (b : Bool)
  | raw (entries : List (String × Json.Value))
  | positional (values : List Json.Value)
  | named (entries : List (String × Json.Value))
  | serializer (s : Serializer)

/-- A parameter name without its leading dollar sign. -/
def parameterName (name : String) : String :=
  match name.toList with
  | '$' :: rest => String.ofList rest
  | _ => name

namespace Query

/-- Whether a time to wait has 64 bits in microseconds. -/
def isShortWait (d : Duration) : Bool := d.micros < UInt64.size

def setRaw (q : Query) (entries : List (String × Json.Value)) : Query :=
  { q with raw := entries.foldl (fun raw (k, v) => Keyed.insert k v raw) q.raw }

def setNamed (q : Query) (entries : List (String × Json.Value)) : Query :=
  { q with
    named := entries.foldl (fun named (k, v) => Keyed.insert (parameterName k) v named) q.named }

def change (q : Query) : QueryChange → Except QueryRefusal Query
  | .timeout d => if d.isZero then .error .zeroTimeout else .ok { q with timeout := some d }
  | .consistency c =>
    match Freshness.ofConsistency c with
    | .ok freshness => .ok { q with freshness }
    | .error why => .error why
  | .consistentWith state =>
    match q.freshness.consistentWith state with
    | .ok freshness => .ok { q with freshness }
    | .error why => .error why
  | .scanWait d => if isShortWait d then .ok { q with scanWait := some d } else .error .longScanWait
  | .clientContextId id =>
    if id = "" then .error .emptyContextId else .ok { q with clientContextId := some id }
  | .readOnly b => .ok { q with readOnly := some b }
  | .adhoc b => .ok { q with adhoc := some b }
  | .maxParallelism n => .ok { q with maxParallelism := some n }
  | .pipelineBatch n => .ok { q with pipelineBatch := some n }
  | .pipelineCap n => .ok { q with pipelineCap := some n }
  | .profile p => .ok { q with profile := some p }
  | .queryContext context => .ok { q with queryContext := some context }
  | .scanCap n => .ok { q with scanCap := some n }
  | .flexIndex b => .ok { q with flexIndex := some b }
  | .preserveExpiry b => .ok { q with preserveExpiry := some b }
  | .metrics b => .ok { q with metrics := some b }
  | .raw entries => .ok (q.setRaw entries)
  | .positional values => .ok { q with positional := values }
  | .named entries => .ok (q.setNamed entries)
  | .serializer s => .ok { q with serializer := some s }

/-- Makes changes one after another, up to the first refused one. -/
def changeAll (q : Query) : List QueryChange → Except QueryRefusal Query
  | [] => .ok q
  | c :: rest =>
    match q.change c with
    | .ok q => q.changeAll rest
    | .error why => .error why

/-- The tuning options, if any is set. Metrics are mentioned only to be switched off. -/
def tuning (q : Query) (scanWaitMicros : Option UInt64) : Option Wire.TuningOptions :=
  let tuning : Wire.TuningOptions :=
    { maxParallelism := q.maxParallelism
      pipelineBatch := q.pipelineBatch
      pipelineCap := q.pipelineCap
      scanWaitMicros
      scanCap := q.scanCap
      disableMetrics := if q.metrics = some false then some true else none }
  if tuning = {} then none else some tuning

def scanWaitMicros (q : Query) : Except QueryRefusal (Option UInt64) :=
  match q.scanWait with
  | none => .ok none
  | some d =>
    if isShortWait d then .ok (some (UInt64.ofNat d.micros)) else .error .longScanWait

/-- The request for a query; parameters are JSON text, named ones with their dollar sign. -/
def toWire (q : Query) : Except QueryRefusal Wire.QueryRequest :=
  match q.scanWaitMicros with
  | .error why => .error why
  | .ok wait =>
    .ok
      { statement := q.statement
        queryContext := q.queryContext
        readOnly := q.readOnly
        prepared := q.adhoc.map (!·)
        tuning := q.tuning wait
        clientContextId := q.clientContextId
        scanConsistency := q.freshness.toWire
        positional := q.positional.map (·.print)
        named := q.named.map fun (k, v) => ("$" ++ k, v.print)
        flexIndex := q.flexIndex
        preserveExpiry := q.preserveExpiry
        consistentWith := q.freshness.tokens
        profileMode := q.profile.map (·.toWire)
        raw := q.raw.map fun (k, v) => (k, v.print) }

end Query
end DocumentClient
