import DocumentClient.Operation
import DocumentClient.Options.Bag
import DocumentClient.Wire.Durability

/-!
# From options to request fields

Each option writes one field of a request, durability one of two. A value is checked and
converted on the way; some values, such as a version of 0, write nothing. Resolution goes
through the effective options of a call in their order, skips names that the operation does
not take, and stops at the first value that is refused.
-/

namespace DocumentClient

/-- The fields of a request that options can write. -/
inductive WireField where
  | timeoutMicros
  | expirySecs
  | preserveExpiry
  | cas
  | durabilityLevel
  | legacyDurability
  | project
  | accessDeleted
  | storeSemantic
deriving DecidableEq

def WireField.all : List WireField :=
  [.timeoutMicros, .expirySecs, .preserveExpiry, .cas, .durabilityLevel, .legacyDurability,
    .project, .accessDeleted, .storeSemantic]

def WireField.name : WireField → String
  | .timeoutMicros => "TimeoutMicros"
  | .expirySecs => "ExpirySecs"
  | .preserveExpiry => "PreserveExpiry"
  | .cas => "Cas"
  | .durabilityLevel => "DurabilityLevel"
  | .legacyDurability => "LegacyDurability"
  | .project => "Project"
  | .accessDeleted => "AccessDeleted"
  | .storeSemantic => "StoreSemantic"

/-- The value of a request field. -/
inductive FieldValue where
  | bool (b : Bool)
  | u32 (n : UInt32)
  | u64 (n : UInt64)
  | enum (n : Int32)
  | texts (xs : List String)
  | legacy (spec : Wire.LegacyDurability)
deriving DecidableEq

/-- Why the value of an option is refused. -/
inductive OptionRefusal where
  | notDuration (value : OptionValue)
  | zeroTimeout
  | longTimeout
  | expiryRange (seconds : Nat)
  | notBool (value : OptionValue)
  | notCas (value : OptionValue)
  | notDurability (value : OptionValue)
  | durability (why : DurabilityRefusal)
  | notProjection (value : OptionValue)
  | emptyPath
  | notSemantics (value : OptionValue)
  | unknownSemantics (label : String)
deriving DecidableEq

def unknownSemanticsMessage (label : String) : String :=
  "unknown store semantics '" ++ label ++ "'"

def OptionRefusal.message : OptionRefusal → String
  | .notDuration v => "expected a duration, got " ++ v.display
  | .zeroTimeout => "timeout must be positive"
  | .longTimeout => "timeout is too large"
  | .expiryRange n => "expiry of " ++ Decimal.text n ++ " seconds is out of range"
  | .notBool v => "expected a boolean, got " ++ v.display
  | .notCas v => "expected a CAS value, got " ++ v.display
  | .notDurability v => "expected a durability, got " ++ v.display
  | .durability why => why.message
  | .notProjection v => "expected projection paths, got " ++ v.display
  | .emptyPath => "projection paths must not be empty"
  | .notSemantics v => "expected store semantics, got " ++ v.display
  | .unknownSemantics label => unknownSemanticsMessage label

/-- A check of an option value that also converts it; `none` writes nothing. -/
abbrev Conversion := OptionValue → Except OptionRefusal (Option FieldValue)

namespace Conversion

/-- A positive duration in whole microseconds. -/
def timeout : Conversion
  | .duration d =>
    if d.isZero then .error .zeroTimeout
    else if d.micros < UInt64.size then .ok (some (.u64 (UInt64.ofNat d.micros)))
    else .error .longTimeout
  | v => .error (.notDuration v)

def expirySeconds (seconds : Nat) : Except OptionRefusal (Option FieldValue) :=
  if seconds < UInt32.size then .ok (some (.u32 (UInt32.ofNat seconds)))
  else .error (.expiryRange seconds)

/-- A duration or a number of seconds, in whole seconds. -/
def expiry : Conversion
  | .duration d => expirySeconds d.seconds
  | .int n => if 0 ≤ n then expirySeconds n.toInt.toNat else .error (.notDuration (.int n))
  | .uint n => expirySeconds n.toNat
  | v => .error (.notDuration v)

def bool : Conversion
  | .bool b => .ok (some (.bool b))
  | v => .error (.notBool v)

/-- A document version; version 0 stands for none. -/
def cas : Conversion
  | .uint n => .ok (if n = 0 then none else some (.u64 n))
  | .int n =>
    if 0 ≤ n then .ok (if n = 0 then none else some (.u64 n.toUInt64))
    else .error (.notCas (.int n))
  | v => .error (.notCas v)

/-- A synchronous durability level, also by label. -/
def durabilityLevel : Conversion
  | .durability (.level l) => .ok (l.toWire.map .enum)
  | .durability (.legacy _ _) => .ok none
  | .text label =>
    match DurabilityLevel.ofLabel label with
    | .ok l => .ok (l.toWire.map .enum)
    | .error why => .error (.durability why)
  | v => .error (.notDurability v)

/-- An observation of at least one node. -/
def legacyDurability : Conversion
  | .durability (.legacy replicate persist) =>
    if replicate.count = 0 ∧ persist.count = 0 then .ok none
    else .ok (some (.legacy ⟨replicate.count, persist.count⟩))
  | _ => .ok none

/-- Paths of a document, none of them empty. -/
def project : Conversion
  | .texts paths =>
    if paths = [] then .ok none
    else if "" ∈ paths then .error .emptyPath
    else .ok (some (.texts paths))
  | .text path =>
    if path = "" then .error (.notProjection (.text path)) else .ok (some (.texts [path]))
  | v => .error (.notProjection v)

def semantics : Conversion
  | .semantics s => .ok (some (.enum s.toWire))
  | .text label =>
    match StoreSemantics.ofLabel label with
    | .ok s => .ok (some (.enum s.toWire))
    | .error label => .error (.unknownSemantics label)
  | v => .error (.notSemantics v)

end Conversion

/-- The fields that an option writes and how, in the order in which they are checked. -/
def OptionKind.destinations : OptionKind → List (WireField × Conversion)
  | .timeout => [(.timeoutMicros, Conversion.timeout)]
  | .expiry => [(.expirySecs, Conversion.expiry)]
  | .preserveExpiry => [(.preserveExpiry, Conversion.bool)]
  | .cas => [(.cas, Conversion.cas)]
  | .durability =>
    [(.durabilityLevel, Conversion.durabilityLevel),
      (.legacyDurability, Conversion.legacyDurability)]
  | .project => [(.project, Conversion.project)]
  | .accessDeleted => [(.accessDeleted, Conversion.bool)]
  | .storeSemantics => [(.storeSemantic, Conversion.semantics)]

/-- The fields that the options of a call have written. -/
structure RequestFields where
  get? : WireField → Option FieldValue

namespace RequestFields

def empty : RequestFields := ⟨fun _ => none⟩

def set (fields : RequestFields) (field : WireField) (value : FieldValue) : RequestFields :=
  ⟨fun f => if f = field then some value else fields.get? f⟩

/-- The written fields in their fixed order. -/
def toList (fields : RequestFields) : List (WireField × FieldValue) :=
  WireField.all.filterMap fun f => (fields.get? f).map fun v => (f, v)

def bool? (fields : RequestFields) (field : WireField) : Option Bool :=
  match fields.get? field with
  | some (.bool b) => some b
  | _ => none

def u32? (fields : RequestFields) (field : WireField) : Option UInt32 :=
  match fields.get? field with
  | some (.u32 n) => some n
  | _ => none

def u64? (fields : RequestFields) (field : WireField) : Option UInt64 :=
  match fields.get? field with
  | some (.u64 n) => some n
  | _ => none

def enum? (fields : RequestFields) (field : WireField) : Option Int32 :=
  match fields.get? field with
  | some (.enum n) => some n
  | _ => none

def texts? (fields : RequestFields) (field : WireField) : Option (List String) :=
  match fields.get? field with
  | some (.texts xs) => some xs
  | _ => none

def timeout? (fields : RequestFields) : Option Duration :=
  (fields.u64? .timeoutMicros).map fun n => Duration.ofMicros n.toNat

def legacyDurability? (fields : RequestFields) : Option Wire.LegacyDurability :=
  match fields.get? .legacyDurability with
  | some (.legacy spec) => some spec
  | _ => none

/-- The durability of a request: a level or an observation, not both. -/
def durability (fields : RequestFields) :
    Except DurabilityRefusal (Option Wire.DurabilitySpec) :=
  match fields.enum? .durabilityLevel, fields.legacyDurability? with
  | some _, some _ => .error .conflict
  | some level, none => .ok (some (.level level))
  | none, some spec => .ok (some (.legacy spec))
  | none, none => .ok none

end RequestFields

/-- An option of an operation whose value is refused. -/
structure OptionFault where
  operation : Operation
  name : String
  why : OptionRefusal
deriving DecidableEq

def OptionFault.message (f : OptionFault) : String :=
  f.operation.name ++ ": option '" ++ f.name ++ "': " ++ f.why.message

namespace Resolution

/-- Writes the fields of one option. -/
def write (value : OptionValue) :
    List (WireField × Conversion) → RequestFields → Except OptionRefusal RequestFields
  | [], fields => .ok fields
  | (field, convert) :: rest, fields =>
    match convert value with
    | .error why => .error why
    | .ok none => write value rest fields
    | .ok (some v) => write value rest (fields.set field v)

/-- The option of this name, if the operation takes it. -/
def taken? (operation : Operation) (name : String) : Option OptionKind :=
  (OptionKind.ofName? name).filter fun kind => kind ∈ operation.options

/-- Writes the fields of all options of a list. -/
def writeAll (operation : Operation) :
    List (String × OptionValue) → RequestFields → Except OptionFault RequestFields
  | [], fields => .ok fields
  | (name, value) :: rest, fields =>
    match taken? operation name with
    | none => writeAll operation rest fields
    | some kind =>
      match write value kind.destinations fields with
      | .error why => .error ⟨operation, name, why⟩
      | .ok fields => writeAll operation rest fields

end Resolution

/-- The request fields of an operation's options: those of a bag, overwritten by another. -/
def resolve (operation : Operation) (options overrides : Bag) :
    Except OptionFault RequestFields :=
  Resolution.writeAll operation (options.overwrite overrides).entries .empty

end DocumentClient
