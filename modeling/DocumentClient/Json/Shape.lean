import DocumentClient.Json.Reader

/-!
# Typed reads

A shape describes the values that a caller can use: any value, a boolean, a whole number of a
range, a text, a value or null, a list or a map of such. A value is read as a shape either
from memory or directly from text. Both accept the same values and give them back unchanged;
a text is refused at the first octet that shows that it will not fit, also when a later part
of it is not JSON at all.
-/

namespace DocumentClient.Json

inductive Shape where
  | any
  | bool
  | integer (kind : IntegerKind)
  | text
  | optional (shape : Shape)
  | list (shape : Shape)
  | map (shape : Shape)
deriving DecidableEq

namespace Shape

def boolOf (v : Value) : Except Reason Value :=
  match v with
  | .bool b => .ok (.bool b)
  | v => .error (.wrongType v.found .boolean)

def integerOf (kind : IntegerKind) (v : Value) : Except Reason Value :=
  match v with
  | .number (.whole n) =>
    if kind.least ≤ n ∧ n < kind.bound then .ok (.number (.whole n))
    else .error (.wrongValue n kind)
  | v => .error (.wrongType v.found (.integer kind))

def textOf (v : Value) : Except Reason Value :=
  match v with
  | .text s => .ok (.text s)
  | v => .error (.wrongType v.found .text)

def eachItem (read : Value → Except Reason Value) : List Value → Except Reason (List Value)
  | [] => .ok []
  | v :: rest =>
    match read v with
    | .error e => .error e
    | .ok v =>
      match eachItem read rest with
      | .error e => .error e
      | .ok rest => .ok (v :: rest)

def eachMember (read : Value → Except Reason Value) :
    List (String × Value) → Except Reason (List (String × Value))
  | [] => .ok []
  | (k, v) :: rest =>
    match read v with
    | .error e => .error e
    | .ok v =>
      match eachMember read rest with
      | .error e => .error e
      | .ok rest => .ok ((k, v) :: rest)

/-- Reads a value that is in memory. -/
def ofValue : Shape → Value → Except Reason Value
  | .any, v => .ok v
  | .bool, v => boolOf v
  | .integer kind, v => integerOf kind v
  | .text, v => textOf v
  | .optional shape, v =>
    match v with
    | .null => .ok .null
    | v => shape.ofValue v
  | .list shape, v =>
    match v with
    | .array vs => (eachItem shape.ofValue vs).map .array
    | v => .error (.wrongType v.found .sequence)
  | .map shape, v =>
    match v with
    | .object ms => (eachMember shape.ofValue ms).map .object
    | v => .error (.wrongType v.found .map)

/-- A scalar at the front of a text, if `read` takes it. -/
def readScalar (expected : Expected) (read : Value → Except Reason Value) (s : Bytes) :
    Reading Value :=
  match Reading.head s with
  | .error e => .error e
  | .ok (.scalar v, r) =>
    match read v with
    | .ok v => .ok (v, r)
    | .error reason => .error (Reading.here reason r)
  | .ok (.list, r) => .error (Reading.here (.wrongType .sequence expected) r)
  | .ok (.object, r) => .error (Reading.here (.wrongType .map expected) r)

/-- Null, or what the reader takes. -/
def readOptional (reader : Reader Value) (s : Bytes) : Reading Value :=
  match Reading.skipBlanks s with
  | 110 :: r =>
    match Reading.word [117, 108, 108] r with
    | .ok r => .ok (.null, r)
    | .error e => .error e
  | _ => reader.run s

def readList (item : Option (Reader Value)) (s : Bytes) : Reading Value :=
  match Reading.head s with
  | .error e => .error e
  | .ok (.scalar v, r) => .error (Reading.here (.wrongType v.found .sequence) r)
  | .ok (.object, r) => .error (Reading.here (.wrongType .map .sequence) r)
  | .ok (.list, r) =>
    match Reading.nestedList item r with
    | .error e => .error e
    | .ok (vs, r) => .ok (.array vs, r)

def readMap (value : Option (Reader Value)) (s : Bytes) : Reading Value :=
  match Reading.head s with
  | .error e => .error e
  | .ok (.scalar v, r) => .error (Reading.here (.wrongType v.found .map) r)
  | .ok (.list, r) => .error (Reading.here (.wrongType .sequence .map) r)
  | .ok (.object, r) =>
    match Reading.nestedObject value r with
    | .error e => .error e
    | .ok (ms, r) => .ok (.object (Keyed.ofList ms), r)

theorem readScalar_length_lt {expected : Expected} {read : Value → Except Reason Value}
    {s r : Bytes} {v : Value} (h : readScalar expected read s = .ok (v, r)) :
    r.length < s.length := by
  unfold readScalar at h
  split at h
  · cases h
  · next hh =>
    split at h
    · cases h
      exact (Reading.head_length hh).2 ⟨_, rfl⟩
    · cases h
  · cases h
  · cases h

theorem readOptional_length_lt {reader : Reader Value} {s r : Bytes} {v : Value}
    (h : readOptional reader s = .ok (v, r)) : r.length < s.length := by
  have blanks := Reading.skipBlanks_length_le s
  rw [readOptional] at h
  split at h
  · next t ht =>
    rw [ht] at blanks
    simp only [List.length_cons] at blanks
    split at h
    · next hw =>
      have := Reading.word_length_le hw
      cases h
      omega
    · cases h
  · exact reader.shrinks h

theorem readList_length_lt {item : Option (Reader Value)} {s r : Bytes} {v : Value}
    (h : readList item s = .ok (v, r)) : r.length < s.length := by
  rw [readList] at h
  split at h
  · cases h
  · cases h
  · cases h
  · next hh =>
    have := (Reading.head_length hh).1
    split at h
    · cases h
    · next hl =>
      have := Reading.nestedList_length_lt hl
      cases h
      omega

theorem readMap_length_lt {value : Option (Reader Value)} {s r : Bytes} {v : Value}
    (h : readMap value s = .ok (v, r)) : r.length < s.length := by
  rw [readMap] at h
  split at h
  · cases h
  · cases h
  · cases h
  · next hh =>
    have := (Reading.head_length hh).1
    split at h
    · cases h
    · next hl =>
      have := Reading.nestedObject_length_lt hl
      cases h
      omega

/-- A reader of one shape in texts nested at most this deep. -/
def reader : Shape → (depth : Nat) → Reader Value
  | .any, depth => Reader.value depth
  | .bool, _ => ⟨readScalar .boolean boolOf, readScalar_length_lt⟩
  | .integer kind, _ => ⟨readScalar (.integer kind) (integerOf kind), readScalar_length_lt⟩
  | .text, _ => ⟨readScalar .text textOf, readScalar_length_lt⟩
  | .optional shape, depth => ⟨readOptional (shape.reader depth), readOptional_length_lt⟩
  | .list _, 0 => ⟨readList none, readList_length_lt⟩
  | .list shape, depth + 1 => ⟨readList (some (shape.reader depth)), readList_length_lt⟩
  | .map _, 0 => ⟨readMap none, readMap_length_lt⟩
  | .map shape, depth + 1 => ⟨readMap (some (shape.reader depth)), readMap_length_lt⟩

/-- Reads a whole text. -/
def ofText (shape : Shape) (text : Bytes) : Except Fault Value :=
  (shape.reader Reader.maxDepth).readAll text

end Shape
end DocumentClient.Json
