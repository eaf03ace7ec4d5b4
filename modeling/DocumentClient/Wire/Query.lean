import DocumentClient.Wire.MutationToken

/-!
# Messages about queries

A statement goes out with its parameters as JSON text. The answer is a stream of chunks of
rows; the metadata normally comes with the last chunk.
-/

namespace DocumentClient.Wire

structure TuningOptions where
  maxParallelism : Option UInt32 := none
  pipelineBatch : Option UInt32 := none
  pipelineCap : Option UInt32 := none
  scanWaitMicros : Option UInt64 := none
  scanCap : Option UInt32 := none
  disableMetrics : Option Bool := none
deriving DecidableEq

def TuningOptions.layout : Layout TuningOptions where
  name := some "TuningOptions"
  empty := {}
  fields :=
    [.optional "max_parallelism" 1 .uint32 (·.maxParallelism)
        (fun n m => { m with maxParallelism := n }),
      .optional "pipeline_batch" 2 .uint32 (·.pipelineBatch)
        (fun n m => { m with pipelineBatch := n }),
      .optional "pipeline_cap" 3 .uint32 (·.pipelineCap)
        (fun n m => { m with pipelineCap := n }),
      .optional "scan_wait_micros" 4 .uint64 (·.scanWaitMicros)
        (fun n m => { m with scanWaitMicros := n }),
      .optional "scan_cap" 5 .uint32 (·.scanCap) (fun n m => { m with scanCap := n }),
      .optional "disable_metrics" 6 .bool (·.disableMetrics)
        (fun b m => { m with disableMetrics := b })]

/-- The entries of the two maps are ordered by key. -/
structure QueryRequest where
  statement : String := ""
  queryContext : Option String := none
  readOnly : Option Bool := none
  prepared : Option Bool := none
  tuning : Option TuningOptions := none
  clientContextId : Option String := none
  scanConsistency : Option Int32 := none
  positional : List Bytes := []
  named : List (String × Bytes) := []
  flexIndex : Option Bool := none
  preserveExpiry : Option Bool := none
  consistentWith : List MutationToken := []
  profileMode : Option Int32 := none
  raw : List (String × Bytes) := []
deriving DecidableEq

def QueryRequest.layout : Layout QueryRequest where
  name := some "QueryRequest"
  empty := {}
  fields :=
    [.single "statement" 1 .text (·.statement) (fun t m => { m with statement := t }),
      .optional "query_context" 2 .text (·.queryContext) (fun t m => { m with queryContext := t }),
      .optional "read_only" 3 .bool (·.readOnly) (fun b m => { m with readOnly := b }),
      .optional "prepared" 4 .bool (·.prepared) (fun b m => { m with prepared := b }),
      .message "tuning_options" 5 TuningOptions.layout (·.tuning)
        (fun t m => { m with tuning := t }),
      .optional "client_context_id" 6 .text (·.clientContextId)
        (fun t m => { m with clientContextId := t }),
      .optional "scan_consistency" 7 .int32 (·.scanConsistency)
        (fun n m => { m with scanConsistency := n }),
      .repeated "positional_parameters" 8 .bytes (·.positional)
        (fun xs m => { m with positional := xs }),
      .textMap "named_parameters" 9 (·.named) (fun xs m => { m with named := xs }),
      .optional "flex_index" 10 .bool (·.flexIndex) (fun b m => { m with flexIndex := b }),
      .optional "preserve_expiry" 11 .bool (·.preserveExpiry)
        (fun b m => { m with preserveExpiry := b }),
      .messages "consistent_with" 12 MutationToken.layout (·.consistentWith)
        (fun xs m => { m with consistentWith := xs }),
      .optional "profile_mode" 13 .int32 (·.profileMode) (fun n m => { m with profileMode := n }),
      .textMap "raw" 14 (·.raw) (fun xs m => { m with raw := xs })]

structure QueryMetrics where
  elapsedMicros : UInt64 := 0
  executionMicros : UInt64 := 0
  resultCount : UInt64 := 0
  resultSize : UInt64 := 0
  mutationCount : UInt64 := 0
  sortCount : UInt64 := 0
  errorCount : UInt64 := 0
  warningCount : UInt64 := 0
deriving DecidableEq

def QueryMetrics.layout : Layout QueryMetrics where
  name := some "Metrics"
  empty := {}
  fields :=
    [.single "elapsed_time_micros" 1 .uint64 (·.elapsedMicros)
        (fun n m => { m with elapsedMicros := n }),
      .single "execution_time_micros" 2 .uint64 (·.executionMicros)
        (fun n m => { m with executionMicros := n }),
      .single "result_count" 3 .uint64 (·.resultCount) (fun n m => { m with resultCount := n }),
      .single "result_size" 4 .uint64 (·.resultSize) (fun n m => { m with resultSize := n }),
      .single "mutation_count" 5 .uint64 (·.mutationCount)
        (fun n m => { m with mutationCount := n }),
      .single "sort_count" 6 .uint64 (·.sortCount) (fun n m => { m with sortCount := n }),
      .single "error_count" 7 .uint64 (·.errorCount) (fun n m => { m with errorCount := n }),
      .single "warning_count" 8 .uint64 (·.warningCount) (fun n m => { m with warningCount := n })]

structure QueryWarning where
  code : UInt32 := 0
  message : String := ""
deriving DecidableEq

def QueryWarning.layout : Layout QueryWarning where
  name := some "Warning"
  empty := {}
  fields :=
    [.single "code" 1 .uint32 (·.code) (fun n m => { m with code := n }),
      .single "message" 2 .text (·.message) (fun t m => { m with message := t })]

structure QueryMetadata where
  requestId : String := ""
  clientContextId : String := ""
  status : Int32 := 0
  signature : Bytes := []
  metrics : Option QueryMetrics := none
  warnings : List QueryWarning := []
  profile : Option Bytes := none
deriving DecidableEq

def QueryMetadata.layout : Layout QueryMetadata where
  name := some "MetaData"
  empty := {}
  fields :=
    [.single "request_id" 1 .text (·.requestId) (fun t m => { m with requestId := t }),
      .single "client_context_id" 2 .text (·.clientContextId)
        (fun t m => { m with clientContextId := t }),
      .single "status" 3 .int32 (·.status) (fun n m => { m with status := n }),
      .single "signature" 4 .bytes (·.signature) (fun b m => { m with signature := b }),
      .message "metrics" 5 QueryMetrics.layout (·.metrics) (fun x m => { m with metrics := x }),
      .messages "warnings" 6 QueryWarning.layout (·.warnings)
        (fun xs m => { m with warnings := xs }),
      .optional "profile" 7 .bytes (·.profile) (fun b m => { m with profile := b })]

/-- One chunk of an answer. -/
structure QueryResponse where
  rows : List Bytes := []
  metadata : Option QueryMetadata := none
deriving DecidableEq

def QueryResponse.layout : Layout QueryResponse where
  name := some "QueryResponse"
  empty := {}
  fields :=
    [.repeated "rows" 1 .bytes (·.rows) (fun xs m => { m with rows := xs }),
      .message "meta_data" 2 QueryMetadata.layout (·.metadata)
        (fun x m => { m with metadata := x })]

end DocumentClient.Wire
