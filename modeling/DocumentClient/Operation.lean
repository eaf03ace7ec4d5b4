/-!
# Operations and the options they take

Each operation takes some of the eight options and ignores the names of all others. Which typed
options a caller of an operation can set is said elsewhere, where these are declared.
-/

namespace DocumentClient

inductive OptionKind where
  | timeout
  | expiry
  | preserveExpiry
  | cas
  | durability
  | project
  | accessDeleted
  | storeSemantics
deriving DecidableEq

namespace OptionKind

def all : List OptionKind :=
  [.timeout, .expiry, .preserveExpiry, .cas, .durability, .project, .accessDeleted,
    .storeSemantics]

def name : OptionKind → String
  | .timeout => "timeout"
  | .expiry => "expiry"
  | .preserveExpiry => "preserve_expiry"
  | .cas => "cas"
  | .durability => "durability"
  | .project => "project"
  | .accessDeleted => "access_deleted"
  | .storeSemantics => "store_semantics"

/-- The option with a name. -/
def ofName? (name : String) : Option OptionKind := all.find? fun kind => kind.name = name

theorem ofName?_name (kind : OptionKind) : ofName? kind.name = some kind := by
  cases kind <;> decide

theorem name_of_ofName? {name : String} {kind : OptionKind} (h : ofName? name = some kind) :
    kind.name = name := by
  simpa using List.find?_some h

end OptionKind

inductive Operation where
  | get
  | probe
  | insert
  | upsert
  | replace
  | remove
  | lookupIn
  | mutateIn
  | management
deriving DecidableEq

namespace Operation

def all : List Operation :=
  [.get, .probe, .insert, .upsert, .replace, .remove, .lookupIn, .mutateIn, .management]

def name : Operation → String
  | .get => "get"
  | .probe => "exists"
  | .insert => "insert"
  | .upsert => "upsert"
  | .replace => "replace"
  | .remove => "remove"
  | .lookupIn => "lookup_in"
  | .mutateIn => "mutate_in"
  | .management => "management"

/-- The options that an operation takes. -/
def options : Operation → List OptionKind
  | .get => [.timeout, .project]
  | .probe => [.timeout]
  | .insert => [.timeout, .expiry, .durability]
  | .upsert => [.timeout, .expiry, .preserveExpiry, .durability]
  | .replace => [.timeout, .expiry, .preserveExpiry, .cas, .durability]
  | .remove => [.timeout, .cas, .durability]
  | .lookupIn => [.timeout, .accessDeleted]
  | .mutateIn =>
    [.timeout, .expiry, .preserveExpiry, .cas, .durability, .accessDeleted, .storeSemantics]
  | .management => [.timeout]

end Operation
end DocumentClient
