import DocumentClient.Options.Resolution
import DocumentClient.Transcoder

/-!
# Options of a call

Typed options with a bag of options by name on top of them. An operation sends those typed
options that it takes; the transcoder stays on this side. Of two layers the later one wins,
option by option.
-/

namespace DocumentClient

structure CallOptions where
  timeout : Option Duration := none
  expiry : Option Duration := none
  preserveExpiry : Option Bool := none
  cas : Option UInt64 := none
  durability : Option Durability := none
  project : Option (List String) := none
  accessDeleted : Option Bool := none
  storeSemantics : Option StoreSemantics := none
  transcoder : Option Transcoder := none
  overrides : Bag := {}

/-- A typed option with the value that a caller gives it. -/
inductive TypedOption where
  | timeout (d : Duration)
  | expiry (d : Duration)
  | preserveExpiry (b : Bool)
  | cas (n : UInt64)
  | durability (d : Durability)
  | project (paths : List String)
  | accessDeleted (b : Bool)
  | storeSemantics (s : StoreSemantics)
  | transcoder (t : Transcoder)

/-- A typed option that enters a bag, under the name by which it is declared. -/
inductive TypedField where
  | timeout
  | expiry
  | preserveExpiry
  | cas
  | durability
  | project
  | accessDeleted
  | storeSemantics
deriving DecidableEq

def TypedField.name : TypedField → String
  | .timeout => "timeout"
  | .expiry => "expiry"
  | .preserveExpiry => "preserve_expiry"
  | .cas => "cas"
  | .durability => "durability"
  | .project => "project"
  | .accessDeleted => "access_deleted"
  | .storeSemantics => "store_semantics"

/-- The typed options that are declared for an operation, without the transcoder. -/
def Operation.declared : Operation → List TypedField
  | .get => [.timeout, .project]
  | .probe => [.timeout]
  | .insert => [.timeout, .expiry, .durability]
  | .upsert => [.timeout, .expiry, .preserveExpiry, .durability]
  | .replace => [.timeout, .expiry, .preserveExpiry, .cas, .durability]
  | .remove => [.timeout, .cas, .durability]
  | .lookupIn => [.timeout, .accessDeleted]
  | .mutateIn =>
    [.timeout, .expiry, .preserveExpiry, .cas, .durability, .accessDeleted, .storeSemantics]
  | .management => [.timeout]

namespace CallOptions

/-- Sets a typed option, in place of an earlier value. -/
def assign (options : CallOptions) : TypedOption → CallOptions
  | .timeout d => { options with timeout := some d }
  | .expiry d => { options with expiry := some d }
  | .preserveExpiry b => { options with preserveExpiry := some b }
  | .cas n => { options with cas := some n }
  | .durability d => { options with durability := some d }
  | .project paths => { options with project := some paths }
  | .accessDeleted b => { options with accessDeleted := some b }
  | .storeSemantics s => { options with storeSemantics := some s }
  | .transcoder t => { options with transcoder := some t }

/-- The value of a declared option as a loosely typed one. -/
def value? (options : CallOptions) : TypedField → Option OptionValue
  | .timeout => options.timeout.map .duration
  | .expiry => options.expiry.map .duration
  | .preserveExpiry => options.preserveExpiry.map .bool
  | .cas => options.cas.map .uint
  | .durability => options.durability.map .durability
  | .project => options.project.map .texts
  | .accessDeleted => options.accessDeleted.map .bool
  | .storeSemantics => options.storeSemantics.map .semantics

/-- Sets an option by name, over a typed one of the same name. -/
def set (options : CallOptions) (name : String) (value : OptionValue) : CallOptions :=
  { options with overrides := options.overrides.insert name value }

/-- These options with a later layer on top of them. -/
def merge (options later : CallOptions) : CallOptions where
  timeout := later.timeout.or options.timeout
  expiry := later.expiry.or options.expiry
  preserveExpiry := later.preserveExpiry.or options.preserveExpiry
  cas := later.cas.or options.cas
  durability := later.durability.or options.durability
  project := later.project.or options.project
  accessDeleted := later.accessDeleted.or options.accessDeleted
  storeSemantics := later.storeSemantics.or options.storeSemantics
  transcoder := later.transcoder.or options.transcoder
  overrides := options.overrides.overwrite later.overrides

/-- The options of several layers, the lowest one first. -/
def ofLayers : List CallOptions → CallOptions
  | [] => {}
  | lowest :: rest => rest.foldl merge lowest

/-- The declared options of an operation that are set, in the order of their declaration. -/
def toBag (options : CallOptions) (operation : Operation) : Bag :=
  .ofEntries <| operation.declared.filterMap fun field =>
    (options.value? field).map fun v => (field.name, v)

def resolve (options : CallOptions) (operation : Operation) : Except OptionFault RequestFields :=
  DocumentClient.resolve operation (options.toBag operation) options.overrides

end CallOptions
end DocumentClient
