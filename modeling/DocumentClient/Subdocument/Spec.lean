import DocumentClient.Document
import DocumentClient.Wire.Subdocument

/-!
# Specs of paths

What to look up or change at a path of a document. A mutation carries its values as JSON text,
several of them separated by commas; only a removal carries none. A counter takes one signed
64 bit integer other than zero.
-/

namespace DocumentClient

inductive LookupOp where
  | get
  | probe
  | count
deriving DecidableEq

namespace LookupOp

def text : LookupOp → String
  | .get => "Get"
  | .probe => "Exists"
  | .count => "Count"

def toWire : LookupOp → Int32
  | .get => 0
  | .probe => 1
  | .count => 2

end LookupOp

inductive MutateOp where
  | insert
  | upsert
  | replace
  | remove
  | arrayAppend
  | arrayPrepend
  | arrayInsert
  | arrayAddUnique
  | counter
deriving DecidableEq

namespace MutateOp

def name : MutateOp → String
  | .insert => "insert"
  | .upsert => "upsert"
  | .replace => "replace"
  | .remove => "remove"
  | .arrayAppend => "array_append"
  | .arrayPrepend => "array_prepend"
  | .arrayInsert => "array_insert"
  | .arrayAddUnique => "array_add_unique"
  | .counter => "counter"

def all : List MutateOp :=
  [.insert, .upsert, .replace, .remove, .arrayAppend, .arrayPrepend, .arrayInsert,
    .arrayAddUnique, .counter]

def toWire : MutateOp → Int32
  | .insert => 0
  | .upsert => 1
  | .replace => 2
  | .remove => 3
  | .arrayAppend => 4
  | .arrayPrepend => 5
  | .arrayInsert => 6
  | .arrayAddUnique => 7
  | .counter => 8

/-- Every operation except a removal sends a value. -/
def carriesValue (op : MutateOp) : Bool := op != .remove

/-- The operations that take several values for an array. -/
def takesSeveral : MutateOp → Bool
  | .arrayAppend | .arrayPrepend | .arrayInsert => true
  | _ => false

/-- Whether an operation is given so many values. -/
def takes (op : MutateOp) (count : Nat) : Bool :=
  op.takesSeveral || count == if op.carriesValue then 1 else 0

end MutateOp

/-- Why a spec, or a question about the result of one, is refused. -/
inductive SpecRefusal where
  | unknownLookup (label : String)
  | unknownMutation (label : String)
  | noLookups
  | noMutations
  | valueRequired (op : MutateOp)
  | valueMissing (op : MutateOp) (path : String)
  | counterDelta (path : String)
  | indexOutOfRange (index count : Nat)
  | noValueReturned (index : Nat)
deriving DecidableEq

def SpecRefusal.message : SpecRefusal → String
  | .unknownLookup label => "unknown lookup_in operation '" ++ label ++ "'"
  | .unknownMutation label => "unknown mutate_in operation '" ++ label ++ "'"
  | .noLookups => "lookup_in requires at least one spec"
  | .noMutations => "mutate_in requires at least one spec"
  | .valueRequired op => op.name ++ " requires a value"
  | .valueMissing op path => op.name ++ " on '" ++ path ++ "' requires a value"
  | .counterDelta path => "counter delta on '" ++ path ++ "' must be a non-zero integer"
  | .indexOutOfRange index count =>
    "spec index " ++ Decimal.text index ++ " out of range (" ++ Decimal.text count ++ " specs)"
  | .noValueReturned index => "spec " ++ Decimal.text index ++ " did not return a value"

def LookupOp.ofLabel (label : String) : Except SpecRefusal LookupOp :=
  if label = "get" then .ok .get
  else if label = "exists" then .ok .probe
  else if label = "count" ∨ label = "get_count" then .ok .count
  else .error (.unknownLookup label)

def MutateOp.ofLabel (label : String) : Except SpecRefusal MutateOp :=
  match all.find? fun op => op.name = label with
  | some op => .ok op
  | none => .error (.unknownMutation label)

structure LookupSpec where
  op : LookupOp
  path : String
  xattr : Bool := false
deriving DecidableEq

namespace LookupSpec

/-- The spec with a labelled operation. -/
def ofLabel (label path : String) : Except SpecRefusal LookupSpec :=
  match LookupOp.ofLabel label with
  | .ok op => .ok ⟨op, path, false⟩
  | .error why => .error why

def toWire (spec : LookupSpec) : Wire.LookupSpec where
  operation := spec.op.toWire
  path := spec.path
  flags := if spec.xattr then some ⟨some true⟩ else none

def listToWire (specs : List LookupSpec) : Except SpecRefusal (List Wire.LookupSpec) :=
  if specs = [] then .error .noLookups else .ok (specs.map toWire)

end LookupSpec

/-- A mutation of a path with as many values as its operation is given. -/
structure MutateSpec where
  op : MutateOp
  path : String
  values : List Json.Value
  counted : op.takes values.length := by rfl
  createPath : Bool := false
  xattr : Bool := false
deriving DecidableEq

namespace MutateSpec

/-- The spec with a labelled operation. For the operations that take several values an array
stands for its items. -/
def ofLabel (label path : String) (value : Option Json.Value) :
    Except SpecRefusal MutateSpec :=
  match MutateOp.ofLabel label with
  | .error why => .error why
  | .ok op =>
    if carries : op.carriesValue then
      match value with
      | none => .error (.valueRequired op)
      | some (.array items) =>
        if several : op.takesSeveral then
          .ok { op, path, values := items, counted := by simp [MutateOp.takes, several] }
        else
          .ok { op, path, values := [.array items], counted := by simp [MutateOp.takes, carries] }
      | some v => .ok { op, path, values := [v], counted := by simp [MutateOp.takes, carries] }
    else .ok { op, path, values := [], counted := by simp [MutateOp.takes, carries] }

def insert (path : String) (v : Json.Value) : MutateSpec := { op := .insert, path, values := [v] }

def upsert (path : String) (v : Json.Value) : MutateSpec := { op := .upsert, path, values := [v] }

def replace (path : String) (v : Json.Value) : MutateSpec :=
  { op := .replace, path, values := [v] }

def remove (path : String) : MutateSpec := { op := .remove, path, values := [] }

def arrayAppend (path : String) (vs : List Json.Value) : MutateSpec :=
  { op := .arrayAppend, path, values := vs }

def arrayPrepend (path : String) (vs : List Json.Value) : MutateSpec :=
  { op := .arrayPrepend, path, values := vs }

def arrayInsert (path : String) (vs : List Json.Value) : MutateSpec :=
  { op := .arrayInsert, path, values := vs }

def arrayAddUnique (path : String) (v : Json.Value) : MutateSpec :=
  { op := .arrayAddUnique, path, values := [v] }

def increment (path : String) (delta : UInt64) : MutateSpec :=
  { op := .counter, path, values := [.number (.whole delta.toNat)] }

/-- A delta too large for a signed number becomes null, which is refused later. -/
def decrement (path : String) (delta : UInt64) : MutateSpec :=
  { op := .counter, path,
    values :=
      [if delta.toNat < 0x8000000000000000 then .number (.whole (-(delta.toNat : Int)))
        else .null] }

/-- Whether a value is a signed 64 bit integer other than zero. -/
def isDelta (v : Json.Value) : Bool :=
  match v.whole? with
  | some n => decide (-0x8000000000000000 ≤ n ∧ n < 0x8000000000000000 ∧ n ≠ 0)
  | none => false

def content (spec : MutateSpec) : Except SpecRefusal Bytes :=
  if spec.op.carriesValue then
    match spec.values with
    | [] => .error (.valueMissing spec.op spec.path)
    | v :: rest =>
      if spec.op = .counter ∧ ¬ isDelta v then .error (.counterDelta spec.path)
      else .ok (Json.printItems (v :: rest))
  else .ok []

def toWire (spec : MutateSpec) : Except SpecRefusal Wire.MutateSpec :=
  match spec.content with
  | .error why => .error why
  | .ok content =>
    .ok
      { operation := spec.op.toWire
        path := spec.path
        content
        flags :=
          if spec.createPath ∨ spec.xattr then
            some ⟨if spec.createPath then some true else none,
              if spec.xattr then some true else none⟩
          else none }

def allToWire : List MutateSpec → Except SpecRefusal (List Wire.MutateSpec)
  | [] => .ok []
  | spec :: rest =>
    match spec.toWire with
    | .error why => .error why
    | .ok w =>
      match allToWire rest with
      | .error why => .error why
      | .ok ws => .ok (w :: ws)

def listToWire (specs : List MutateSpec) : Except SpecRefusal (List Wire.MutateSpec) :=
  if specs = [] then .error .noMutations else allToWire specs

end MutateSpec
end DocumentClient
