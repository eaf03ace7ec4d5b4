import DocumentClient.Query.Basic

/-!
# Metadata of a finished query

What the service says about a query after its last row. The signature and the profile are
JSON text; where they are empty there is none.
-/

namespace DocumentClient

inductive QueryStatus where
  | running
  | success
  | errors
  | completed
  | stopped
  | timeout
  | closed
  | fatal
  | aborted
  | unknown
deriving DecidableEq

namespace QueryStatus

/-- The states by their numbers, from 0. -/
def all : List QueryStatus :=
  [.running, .success, .errors, .completed, .stopped, .timeout, .closed, .fatal, .aborted,
    .unknown]

/-- The state with a number; a number without a state is unknown. -/
def ofWire (n : Int32) : QueryStatus :=
  if n < 0 then .unknown else all.getD n.toInt.toNat .unknown

def name : QueryStatus → String
  | .running => "running"
  | .success => "success"
  | .errors => "errors"
  | .completed => "completed"
  | .stopped => "stopped"
  | .timeout => "timeout"
  | .closed => "closed"
  | .fatal => "fatal"
  | .aborted => "aborted"
  | .unknown => "unknown"

end QueryStatus

structure QueryMetrics where
  elapsed : Duration
  execution : Duration
  resultCount : UInt64
  resultSize : UInt64
  mutationCount : UInt64
  sortCount : UInt64
  errorCount : UInt64
  warningCount : UInt64
deriving DecidableEq

structure QueryMetadata where
  requestId : String
  clientContextId : String
  status : QueryStatus
  signature : Option Json.Value
  metrics : Option QueryMetrics
  warnings : List (UInt32 × String)
  profile : Option Json.Value
deriving DecidableEq

namespace QueryMetadata

def metricsOfWire (w : Wire.QueryMetrics) : QueryMetrics :=
  ⟨.ofMicros w.elapsedMicros.toNat, .ofMicros w.executionMicros.toNat, w.resultCount,
    w.resultSize, w.mutationCount, w.sortCount, w.errorCount, w.warningCount⟩

/-- Reads JSON text unless it is empty. -/
def readPart (serializer : Serializer) (octets : Bytes) :
    Except ContentFault (Option Json.Value) :=
  if octets = [] then .ok none
  else
    match serializer.read octets with
    | .ok v => .ok (some v)
    | .error fault => .error fault

def ofWire (serializer : Serializer) (w : Wire.QueryMetadata) :
    Except ContentFault QueryMetadata :=
  match readPart serializer w.signature with
  | .error fault => .error fault
  | .ok signature =>
    match readPart serializer (w.profile.getD []) with
    | .error fault => .error fault
    | .ok profile =>
      .ok
        { requestId := w.requestId
          clientContextId := w.clientContextId
          status := .ofWire w.status
          signature
          metrics := w.metrics.map metricsOfWire
          warnings := w.warnings.map fun x => (x.code, x.message)
          profile }

end QueryMetadata
end DocumentClient
