import DocumentClient.Query.Basic

/-!
# Arguments of a query

A query is prepared from an options object, or from any mix of one options object, positional
parameters and keywords. A keyword that names an option sets it, any other one is a named
parameter; keywords come last and in their order. Explicit positional arguments take the place
of those of the options object.
-/

namespace DocumentClient

namespace QueryChange

def ofSeconds (name : String) (v : Json.Value) : Except QueryRefusal Duration :=
  match v.real?.bind Binary64.seconds? with
  | some d => .ok d
  | none => .error (.wrongType name "a non-negative number of seconds" v)

def ofBool (name : String) (v : Json.Value) : Except QueryRefusal Bool :=
  match v.bool? with
  | some b => .ok b
  | none => .error (.wrongType name "a boolean" v)

def ofUnsigned (name : String) (v : Json.Value) : Except QueryRefusal UInt32 :=
  match v.whole?.filter fun (n : Int) => 0 ≤ n ∧ n < UInt32.size with
  | some n => .ok (UInt32.ofNat n.toNat)
  | none => .error (.wrongType name "an unsigned integer" v)

def ofText (name : String) (v : Json.Value) : Except QueryRefusal String :=
  match v.text? with
  | some s => .ok s
  | none => .error (.wrongType name "a string" v)

def ofObject (name : String) (v : Json.Value) :
    Except QueryRefusal (List (String × Json.Value)) :=
  match v with
  | .object members => .ok members
  | v => .error (.wrongType name "an object" v)

def ofArray (name : String) (v : Json.Value) : Except QueryRefusal (List Json.Value) :=
  match v with
  | .array items => .ok items
  | v => .error (.wrongType name "an array" v)

/-- The change that an option asks for, if the name is that of a query option. -/
def ofOption? (name : String) (v : Json.Value) : Option (Except QueryRefusal QueryChange) :=
  if name = "timeout" then some ((ofSeconds name v).map .timeout)
  else if name = "scan_wait" then some ((ofSeconds name v).map .scanWait)
  else if name = "read_only" ∨ name = "readonly" then some ((ofBool name v).map .readOnly)
  else if name = "adhoc" then some ((ofBool name v).map .adhoc)
  else if name = "flex_index" then some ((ofBool name v).map .flexIndex)
  else if name = "preserve_expiry" then some ((ofBool name v).map .preserveExpiry)
  else if name = "metrics" then some ((ofBool name v).map .metrics)
  else if name = "max_parallelism" then some ((ofUnsigned name v).map .maxParallelism)
  else if name = "pipeline_batch" then some ((ofUnsigned name v).map .pipelineBatch)
  else if name = "pipeline_cap" then some ((ofUnsigned name v).map .pipelineCap)
  else if name = "scan_cap" then some ((ofUnsigned name v).map .scanCap)
  else if name = "client_context_id" then some ((ofText name v).map .clientContextId)
  else if name = "query_context" then some ((ofText name v).map .queryContext)
  else if name = "scan_consistency" ∨ name = "consistency" then
    some (((ofText name v).bind ScanConsistency.ofLabel).map .consistency)
  else if name = "profile" then some (((ofText name v).bind Profile.ofLabel).map .profile)
  else if name = "consistent_with" then some (.error .stateByName)
  else if name = "raw" then some ((ofObject name v).map .raw)
  else if name = "positional_parameters" then some ((ofArray name v).map .positional)
  else if name = "named_parameters" then some ((ofObject name v).map .named)
  else none

end QueryChange

/-- Sets an option by name; `none` when the name is not that of a query option. -/
def Query.setOption (q : Query) (name : String) (v : Json.Value) :
    Except QueryRefusal (Option Query) :=
  match QueryChange.ofOption? name v with
  | none => .ok none
  | some (.error why) => .error why
  | some (.ok c) => (q.change c).map some

/-- Options of a query, checked when the query is built. -/
structure QueryOptions where
  timeout : Option Duration := none
  readOnly : Option Bool := none
  scanConsistency : Option ScanConsistency := none
  consistentWith : Option MutationState := none
  adhoc : Option Bool := none
  clientContextId : Option String := none
  maxParallelism : Option UInt32 := none
  pipelineBatch : Option UInt32 := none
  pipelineCap : Option UInt32 := none
  profile : Option Profile := none
  queryContext : Option String := none
  scanCap : Option UInt32 := none
  scanWait : Option Duration := none
  flexIndex : Option Bool := none
  preserveExpiry : Option Bool := none
  metrics : Option Bool := none
  raw : Option (List (String × Json.Value)) := none
  positional : Option (List Json.Value) := none
  named : Option (List (String × Json.Value)) := none
  serializer : Option Serializer := none

namespace QueryOptions

/-- Adds one option to hand on to the service. -/
def addRaw (o : QueryOptions) (name : String) (v : Json.Value) : QueryOptions :=
  { o with raw := some (Keyed.insert name v (o.raw.getD [])) }

/-- Adds one named parameter. -/
def addNamed (o : QueryOptions) (name : String) (v : Json.Value) : QueryOptions :=
  { o with named := some (Keyed.insert name v (o.named.getD [])) }

/-- Adds one positional parameter. -/
def addPositional (o : QueryOptions) (v : Json.Value) : QueryOptions :=
  { o with positional := some (o.positional.getD [] ++ [v]) }

/-- The changes that the options ask for, those that can be refused first. -/
def changes (o : QueryOptions) : List QueryChange :=
  (o.timeout.map .timeout).toList ++
  (o.scanConsistency.map .consistency).toList ++
  (o.consistentWith.map .consistentWith).toList ++
  (o.scanWait.map .scanWait).toList ++
  (o.clientContextId.map .clientContextId).toList ++
  (o.readOnly.map .readOnly).toList ++
  (o.adhoc.map .adhoc).toList ++
  (o.maxParallelism.map .maxParallelism).toList ++
  (o.pipelineBatch.map .pipelineBatch).toList ++
  (o.pipelineCap.map .pipelineCap).toList ++
  (o.profile.map .profile).toList ++
  (o.queryContext.map .queryContext).toList ++
  (o.scanCap.map .scanCap).toList ++
  (o.flexIndex.map .flexIndex).toList ++
  (o.preserveExpiry.map .preserveExpiry).toList ++
  (o.metrics.map .metrics).toList ++
  (o.raw.map .raw).toList ++
  (o.positional.map .positional).toList ++
  (o.named.map .named).toList ++
  (o.serializer.map .serializer).toList

end QueryOptions

/-- The query that runs a statement with options. -/
def Query.ofOptions (statement : String) (o : QueryOptions) : Except QueryRefusal Query :=
  if Text.trimChars statement.toList = [] then .error .emptyStatement
  else Query.changeAll { statement } o.changes

inductive QueryArgument where
  | options (o : QueryOptions)
  | positional (v : Json.Value)
  | keyword (name : String) (v : Json.Value)

/-- Arguments sorted by their kind. -/
structure SortedArguments where
  options : Option QueryOptions := none
  positional : List Json.Value := []
  keywords : List (String × Json.Value) := []

namespace SortedArguments

/-- Takes the arguments one after another; a second options object is refused. -/
def add (sorted : SortedArguments) : List QueryArgument → Except QueryRefusal SortedArguments
  | [] => .ok sorted
  | .options o :: rest =>
    if sorted.options.isSome then .error .twoOptions
    else add { sorted with options := some o } rest
  | .positional v :: rest => add { sorted with positional := sorted.positional ++ [v] } rest
  | .keyword name v :: rest => add { sorted with keywords := sorted.keywords ++ [(name, v)] } rest

end SortedArguments

/-- The context that resolves names in a scope of a bucket. -/
def scopeContext (bucket scope : String) : String := "default:`" ++ bucket ++ "`.`" ++ scope ++ "`"

/-- The options with the context of a scope, unless they have one. -/
def QueryOptions.within (o : QueryOptions) (place : Option (String × String)) : QueryOptions :=
  match o.queryContext, place with
  | none, some (bucket, scope) => { o with queryContext := some (scopeContext bucket scope) }
  | _, _ => o

namespace Query

/-- Applies keywords in their order. -/
def setKeywords (q : Query) : List (String × Json.Value) → Except QueryRefusal Query
  | [] => .ok q
  | (name, v) :: rest =>
    match q.setOption name v with
    | .error why => .error why
    | .ok (some q) => q.setKeywords rest
    | .ok none => (q.setNamed [(name, v)]).setKeywords rest

/-- The query that runs a statement with mixed arguments, in a scope if one is given. -/
def ofArguments (place : Option (String × String)) (statement : String)
    (args : List QueryArgument) : Except QueryRefusal Query :=
  match SortedArguments.add {} args with
  | .error why => .error why
  | .ok sorted =>
    let o := (sorted.options.getD {}).within place
    let o := if sorted.positional = [] then o else { o with positional := some sorted.positional }
    match ofOptions statement o with
    | .error why => .error why
    | .ok q => q.setKeywords sorted.keywords

end Query
end DocumentClient
