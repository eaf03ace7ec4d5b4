import DocumentClient.Query.Arguments

/-!
# Setters

A query that a caller holds is changed in place. A setter checks its value and then writes, one
entry after another where there are several, and what it has written stays even if it fails after
that. A query that is still being built is given up with the first failure instead; that case is
`Query.change`.
-/

namespace DocumentClient

/-- Works on a query in place, and may fail on the way. -/
abbrev Setter (α : Type) := ExceptT QueryRefusal (StateM Query) α

namespace Setter

/-- The answer and the query as it is left. -/
def perform {α : Type} (setter : Setter α) (q : Query) : Except QueryRefusal α × Query :=
  setter.run.run q

/-- The setter of one property. -/
def change : QueryChange → Setter Unit
  | .timeout d => do
    if d.isZero then throw .zeroTimeout
    modify fun q => { q with timeout := some d }
  | .consistency c => do
    let freshness ← Freshness.ofConsistency c
    modify fun q => { q with freshness }
  | .consistentWith state => do
    let freshness ← (← get).freshness.consistentWith state
    modify fun q => { q with freshness }
  | .scanWait d => do
    if !Query.isShortWait d then throw .longScanWait
    modify fun q => { q with scanWait := some d }
  | .clientContextId id => do
    if id = "" then throw .emptyContextId
    modify fun q => { q with clientContextId := some id }
  | .readOnly b => modify fun q => { q with readOnly := some b }
  | .adhoc b => modify fun q => { q with adhoc := some b }
  | .maxParallelism n => modify fun q => { q with maxParallelism := some n }
  | .pipelineBatch n => modify fun q => { q with pipelineBatch := some n }
  | .pipelineCap n => modify fun q => { q with pipelineCap := some n }
  | .profile p => modify fun q => { q with profile := some p }
  | .queryContext context => modify fun q => { q with queryContext := some context }
  | .scanCap n => modify fun q => { q with scanCap := some n }
  | .flexIndex b => modify fun q => { q with flexIndex := some b }
  | .preserveExpiry b => modify fun q => { q with preserveExpiry := some b }
  | .metrics b => modify fun q => { q with metrics := some b }
  | .raw entries => entries.forM fun e => modify (·.setRaw [e])
  | .positional values => modify fun q => { q with positional := values }
  | .named entries => entries.forM fun e => modify (·.setNamed [e])
  | .serializer s => modify fun q => { q with serializer := some s }

/-- Sets an option by name; `false` when the name is not that of a query option. -/
def option (name : String) (v : Json.Value) : Setter Bool :=
  match QueryChange.ofOption? name v with
  | none => return false
  | some (.error why) => throw why
  | some (.ok c) => do
    change c
    return true

end Setter
end DocumentClient
