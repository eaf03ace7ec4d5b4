import DocumentClient.Keyed
import DocumentClient.Wire.RawField

/-!
# Message layouts

A layout lists the fields of a message: the number of each, how it is written and how what is
read changes the message. A message is written field by field in the order of the layout. It
is read from the front, starting with the empty message: each field that the layout knows
changes the message, any other is skipped. A single value replaces an earlier one, a repeated
one is added at the end, and a nested message continues the one that is already there.
-/

namespace DocumentClient.Wire

/-- Why octets are no message, and in which field of which message that was found, the
innermost one first. -/
structure DecodeError where
  cause : DecodeCause
  path : List (String × String) := []
deriving DecidableEq

namespace DecodeError

def message (e : DecodeError) : String :=
  "failed to decode Protobuf message: "
    ++ String.join (e.path.map fun (message, field) => message ++ "." ++ field ++ ": ")
    ++ e.cause.message

/-- Found inside a field of a message; the entries of a map have no name. -/
def inside (message : Option String) (field : String) (e : DecodeError) : DecodeError :=
  match message with
  | none => e
  | some message => { e with path := e.path ++ [(message, field)] }

end DecodeError

/-- A kind of value that one payload holds. -/
structure Scalar (α : Type) where
  wireType : WireType
  default : α
  write : α → Payload
  read : Bytes → Except DecodeCause (α × Bytes)
  shrinks : ∀ {s r : Bytes} {a : α}, read s = .ok (a, r) → r.length ≤ s.length

namespace Scalar

theorem length_le_of_map {α β : Type} {f : α → β} {x : Except DecodeCause (α × Bytes)}
    {s r : Bytes} {b : β} (hx : ∀ a t, x = .ok (a, t) → t.length ≤ s.length)
    (h : x.map (fun p => (f p.1, p.2)) = .ok (b, r)) : r.length ≤ s.length := by
  cases x with
  | error e => cases h
  | ok y =>
    cases h
    exact hx _ _ rfl

/-- A kind of number: how it is written as one of 64 bits, and read from one. -/
def ofNumber {α : Type} (default : α) (toNat : α → Nat) (ofNat : Nat → α) : Scalar α where
  wireType := .varint
  default := default
  write a := .varint (toNat a)
  read s := (RawField.readVarint s).map fun p => (ofNat p.1, p.2)
  shrinks h :=
    length_le_of_map (fun _ _ hv => Nat.le_of_lt (RawField.readVarint_length_lt hv)) h

def bool : Scalar Bool := ofNumber false (fun b => if b then 1 else 0) (· != 0)

/-- A number above the range loses its high bits. -/
def uint32 : Scalar UInt32 := ofNumber 0 UInt32.toNat UInt32.ofNat

def uint64 : Scalar UInt64 := ofNumber 0 UInt64.toNat UInt64.ofNat

/-- A negative number is written as the 64 bit number with the same sign; a number above the
range loses its high bits. -/
def int32 : Scalar Int32 :=
  ofNumber 0 (fun n => n.toInt64.toUInt64.toNat) (fun n => Int32.ofNat n)

def int64 : Scalar Int64 := ofNumber 0 (fun n => n.toUInt64.toNat) (fun n => Int64.ofNat n)

def bytes : Scalar Bytes where
  wireType := .delimited
  default := []
  write := .delimited
  read := RawField.readDelimited
  shrinks h := RawField.readDelimited_length_le h

def readText (s : Bytes) : Except DecodeCause (String × Bytes) :=
  match RawField.readDelimited s with
  | .error e => .error e
  | .ok (octets, r) =>
    match octets.toString? with
    | none => .error .notText
    | some t => .ok (t, r)

theorem readText_length_le {s r : Bytes} {t : String} (h : readText s = .ok (t, r)) :
    r.length ≤ s.length := by
  unfold readText at h
  split at h
  · cases h
  · next hd =>
    split at h
    · cases h
    · cases h
      exact RawField.readDelimited_length_le hd

def text : Scalar String where
  wireType := .delimited
  default := ""
  write t := .delimited (Bytes.ofString t)
  read := readText
  shrinks := readText_length_le

/-- Reads a payload after a key that announces it. -/
def readAs {α : Type} (scalar : Scalar α) (w : WireType) (s : Bytes) :
    Except DecodeError (α × Bytes) :=
  if w = scalar.wireType then
    match scalar.read s with
    | .error e => .error ⟨e, []⟩
    | .ok x => .ok x
  else .error ⟨.wireType w scalar.wireType, []⟩

theorem readAs_length_le {α : Type} {scalar : Scalar α} {w : WireType} {s r : Bytes} {a : α}
    (h : scalar.readAs w s = .ok (a, r)) : r.length ≤ s.length := by
  rw [readAs] at h
  split at h
  · split at h
    · cases h
    · next hr =>
      cases h
      exact scalar.shrinks hr
  · cases h

end Scalar

/-- A field of the messages of type `M`. -/
structure Field (M : Type) where
  name : String
  tag : Nat
  write : M → List Payload
  read : (budget : Nat) → WireType → Bytes → M → Except DecodeError (M × Bytes)
  shrinks : ∀ {budget : Nat} {w : WireType} {s r : Bytes} {m m' : M},
    read budget w s m = .ok (m', r) → r.length ≤ s.length

structure Layout (M : Type) where
  name : Option String
  empty : M
  fields : List (Field M)

namespace Layout
variable {M : Type}

def encode (layout : Layout M) (m : M) : Bytes :=
  layout.fields.flatMap fun f =>
    (f.write m).flatMap fun payload => RawField.encode ⟨f.tag, payload⟩

/-- Reads what follows a key. -/
def readField (layout : Layout M) (budget tag : Nat) (w : WireType) (s : Bytes) (m : M) :
    Except DecodeError (M × Bytes) :=
  match layout.fields.find? (·.tag = tag) with
  | none =>
    match RawField.skip budget tag w s with
    | .error e => .error ⟨e, []⟩
    | .ok r => .ok (m, r)
  | some f =>
    match f.read budget w s m with
    | .error e => .error (e.inside layout.name f.name)
    | .ok x => .ok x

theorem readField_length_le {layout : Layout M} {budget tag : Nat} {w : WireType}
    {s r : Bytes} {m m' : M} (h : layout.readField budget tag w s m = .ok (m', r)) :
    r.length ≤ s.length := by
  rw [readField] at h
  split at h
  · split at h
    · cases h
    · next hs =>
      cases h
      exact RawField.skip_length_le hs
  · split at h
    · cases h
    · next f _ _ _ hr =>
      cases h
      exact f.shrinks hr

/-- Reads fields until at most `stop` octets are left. -/
def readFields (layout : Layout M) (budget stop : Nat) (s : Bytes) (m : M) :
    Except DecodeError (M × Bytes) :=
  if s.length ≤ stop then .ok (m, s)
  else
    match _hk : RawField.readKey s with
    | .error e => .error ⟨e, []⟩
    | .ok ((tag, w), r) =>
      match _hf : layout.readField budget tag w r m with
      | .error e => .error e
      | .ok (m, r) => readFields layout budget stop r m
termination_by s.length
decreasing_by
  have := RawField.readKey_length_lt _hk
  have := readField_length_le _hf
  omega

theorem readFields_of_le {layout : Layout M} {budget stop : Nat} {s : Bytes} {m : M}
    (h : s.length ≤ stop) : layout.readFields budget stop s m = .ok (m, s) := by
  rw [readFields, if_pos h]

/-- The nesting of messages and groups that a reader follows. -/
def maxNesting : Nat := 100

def decode (layout : Layout M) (s : Bytes) : Except DecodeError M :=
  match layout.readFields maxNesting 0 s layout.empty with
  | .error e => .error e
  | .ok (m, _) => .ok m

/-- Reads a counted message on top of `m`. -/
def readNested (layout : Layout M) (budget : Nat) (s : Bytes) (m : M) :
    Except DecodeError (M × Bytes) :=
  if budget = 0 then .error ⟨.recursionLimit, []⟩
  else
    match RawField.readVarint s with
    | .error e => .error ⟨e, []⟩
    | .ok (n, r) =>
      if n ≤ r.length then
        match layout.readFields (budget - 1) (r.length - n) r m with
        | .error e => .error e
        | .ok (m, t) =>
          if t.length = r.length - n then .ok (m, t) else .error ⟨.lengthExceeded, []⟩
      else .error ⟨.underflow, []⟩

theorem readNested_length_le {layout : Layout M} {budget : Nat} {s r : Bytes} {m m' : M}
    (h : layout.readNested budget s m = .ok (m', r)) : r.length ≤ s.length := by
  rw [readNested] at h
  split at h
  · cases h
  · split at h
    · cases h
    · next hv =>
      have := RawField.readVarint_length_lt hv
      split at h
      · split at h
        · cases h
        · split at h
          · cases h
            omega
          · cases h
      · cases h

/-- Reads a counted message after a key that announces it. -/
def readMessage (layout : Layout M) (budget : Nat) (w : WireType) (s : Bytes) (m : M) :
    Except DecodeError (M × Bytes) :=
  if w = .delimited then layout.readNested budget s m
  else .error ⟨.wireType w .delimited, []⟩

theorem readMessage_length_le {layout : Layout M} {budget : Nat} {w : WireType} {s r : Bytes}
    {m m' : M} (h : layout.readMessage budget w s m = .ok (m', r)) : r.length ≤ s.length := by
  rw [readMessage] at h
  split at h
  · exact readNested_length_le h
  · cases h

end Layout

namespace Field
variable {M : Type}

/-- Puts what has been read into the message. -/
def store {α : Type} (set : α → M → M) (m : M) :
    Except DecodeError (α × Bytes) → Except DecodeError (M × Bytes)
  | .error e => .error e
  | .ok (a, r) => .ok (set a m, r)

theorem store_length_le {α : Type} {set : α → M → M} {m m' : M} {s r : Bytes}
    {x : Except DecodeError (α × Bytes)} (hx : ∀ a t, x = .ok (a, t) → t.length ≤ s.length)
    (h : store set m x = .ok (m', r)) : r.length ≤ s.length := by
  unfold store at h
  split at h
  · cases h
  · cases h
    exact hx _ _ rfl

/-- A value that is left out when it is the default one. -/
def single {α : Type} [DecidableEq α] (name : String) (tag : Nat) (scalar : Scalar α)
    (get : M → α) (set : α → M → M) : Field M where
  name := name
  tag := tag
  write m := if get m = scalar.default then [] else [scalar.write (get m)]
  read _ w s m := store set m (scalar.readAs w s)
  shrinks h := store_length_le (fun _ _ => Scalar.readAs_length_le) h

/-- A value that may be absent and is written when it is present, whatever it is. -/
def optional {α : Type} (name : String) (tag : Nat) (scalar : Scalar α)
    (get : M → Option α) (set : Option α → M → M) : Field M where
  name := name
  tag := tag
  write m := (get m).toList.map scalar.write
  read _ w s m := store (fun a => set (some a)) m (scalar.readAs w s)
  shrinks h := store_length_le (fun _ _ => Scalar.readAs_length_le) h

/-- Any number of values in order. -/
def repeated {α : Type} (name : String) (tag : Nat) (scalar : Scalar α)
    (get : M → List α) (set : List α → M → M) : Field M where
  name := name
  tag := tag
  write m := (get m).map scalar.write
  read _ w s m := store (fun a m => set (get m ++ [a]) m) m (scalar.readAs w s)
  shrinks h := store_length_le (fun _ _ => Scalar.readAs_length_le) h

/-- A message that may be absent. -/
def message {N : Type} (name : String) (tag : Nat) (layout : Layout N)
    (get : M → Option N) (set : Option N → M → M) : Field M where
  name := name
  tag := tag
  write m := (get m).toList.map fun n => .delimited (layout.encode n)
  read budget w s m :=
    store (fun n => set (some n)) m
      (layout.readMessage budget w s ((get m).getD layout.empty))
  shrinks h := store_length_le (fun _ _ => Layout.readMessage_length_le) h

/-- Any number of messages in order. -/
def messages {N : Type} (name : String) (tag : Nat) (layout : Layout N)
    (get : M → List N) (set : List N → M → M) : Field M where
  name := name
  tag := tag
  write m := (get m).map fun n => .delimited (layout.encode n)
  read budget w s m :=
    store (fun n m => set (get m ++ [n]) m) m (layout.readMessage budget w s layout.empty)
  shrinks h := store_length_le (fun _ _ => Layout.readMessage_length_le) h

/-- The entry of a map from texts to octets; an absent part is empty. -/
def mapEntry : Layout (String × Bytes) where
  name := none
  empty := ("", [])
  fields :=
    [single "key" 1 Scalar.text (·.1) (fun k e => (k, e.2)),
      single "value" 2 Scalar.bytes (·.2) (fun v e => (e.1, v))]

/-- A map from texts to octets: a later entry replaces an earlier one under the same key. -/
def textMap (name : String) (tag : Nat) (get : M → List (String × Bytes))
    (set : List (String × Bytes) → M → M) : Field M where
  name := name
  tag := tag
  write m := (get m).map fun e => .delimited (mapEntry.encode e)
  read budget _ s m :=
    store (fun e m => set (Keyed.insert e.1 e.2 (get m)) m) m
      (mapEntry.readNested budget s mapEntry.empty)
  shrinks h := store_length_le (fun _ _ => Layout.readNested_length_le) h

end Field
end DocumentClient.Wire
