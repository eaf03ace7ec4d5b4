import DocumentClient.Document
import DocumentClient.MutationState
import DocumentClient.Text.Label

/-!
# Consistency and profile of a query

How fresh an index must be when a query scans it, how much the service tells about its work,
and why a setting of a query is refused. An index is waited for until it has certain mutations
only by handing in these mutations.
-/

namespace DocumentClient

inductive ScanConsistency where
  | notBounded
  | requestPlus
  | atPlus
deriving DecidableEq

inductive Profile where
  | off
  | phases
  | timings
deriving DecidableEq

def ScanConsistency.text : ScanConsistency → String
  | .notBounded => "NotBounded"
  | .requestPlus => "RequestPlus"
  | .atPlus => "AtPlus"

def Profile.toWire : Profile → Int32
  | .off => 0
  | .phases => 1
  | .timings => 2

/-- Why a query or a setting of one is refused. -/
inductive QueryRefusal where
  | emptyStatement
  | zeroTimeout
  | longScanWait
  | emptyContextId
  | unknownConsistency (label : String)
  | unknownProfile (label : String)
  | atPlusByName
  | combined (consistency : ScanConsistency)
  | emptyState
  | stateByName
  | wrongType (name expected : String) (found : Json.Value)
  | twoOptions
deriving DecidableEq

def QueryRefusal.message : QueryRefusal → String
  | .emptyStatement => "statement must not be empty"
  | .zeroTimeout => "query timeout must be positive"
  | .longScanWait => "scan_wait is too large"
  | .emptyContextId => "client_context_id must not be empty"
  | .unknownConsistency label => "unknown scan consistency '" ++ label ++ "'"
  | .unknownProfile label => "unknown profile mode '" ++ label ++ "'"
  | .atPlusByName => "at_plus consistency is set through consistent_with"
  | .combined c => "consistent_with cannot be combined with " ++ c.text ++ " scan consistency"
  | .emptyState => "consistent_with requires at least one mutation token"
  | .stateByName => "consistent_with takes a MutationState, set it through QueryOptions"
  | .wrongType name expected found =>
    "option '" ++ name ++ "' expects " ++ expected ++ ", got " ++ found.compact
  | .twoOptions => "only one QueryOptions may be passed"

def ScanConsistency.ofLabel (label : String) : Except QueryRefusal ScanConsistency :=
  let label := Text.lowerLabel label
  if label = "not_bounded" then .ok .notBounded
  else if label = "request_plus" then .ok .requestPlus
  else if label = "at_plus" then .ok .atPlus
  else .error (.unknownConsistency label)

def Profile.ofLabel (label : String) : Except QueryRefusal Profile :=
  let label := Text.lowerLabel label
  if label = "off" then .ok .off
  else if label = "phases" then .ok .phases
  else if label = "timings" then .ok .timings
  else .error (.unknownProfile label)

/-- What a query asks of the indexes it scans. -/
inductive Freshness where
  | unset
  | notBounded
  | requestPlus
  | atLeast (state : MutationState)
deriving DecidableEq

namespace Freshness

def consistency? : Freshness → Option ScanConsistency
  | .unset => none
  | .notBounded => some .notBounded
  | .requestPlus => some .requestPlus
  | .atLeast _ => some .atPlus

def state? : Freshness → Option MutationState
  | .atLeast state => some state
  | _ => none

/-- Takes the place of whatever was asked before. -/
def ofConsistency : ScanConsistency → Except QueryRefusal Freshness
  | .notBounded => .ok .notBounded
  | .requestPlus => .ok .requestPlus
  | .atPlus => .error .atPlusByName

/-- Mutations to wait for, not together with a consistency chosen before. -/
def consistentWith (state : MutationState) : Freshness → Except QueryRefusal Freshness
  | .notBounded => .error (.combined .notBounded)
  | .requestPlus => .error (.combined .requestPlus)
  | .unset | .atLeast _ => if state.isEmpty then .error .emptyState else .ok (.atLeast state)

/-- The number on the wire; mutations are sent themselves. -/
def toWire : Freshness → Option Int32
  | .notBounded => some 0
  | .requestPlus => some 1
  | .unset | .atLeast _ => none

/-- The mutations on the wire. -/
def tokens : Freshness → List Wire.MutationToken
  | .atLeast state => state.toWire
  | _ => []

end Freshness
end DocumentClient
