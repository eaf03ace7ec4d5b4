import DocumentClient.Decimal
import DocumentClient.Wire.Varint

/-!
# Fields as they stand in a message

A message is a sequence of fields, each a key and a payload. The key holds the field's number
and says how the payload ends: a number, eight or four octets, a counted run of octets, or a
group of fields up to its closing key. This module holds the parts that all fields share and
the way past a field that nobody asks for. Groups are only skipped; they may be nested as deep
as the budget of the message allows.
-/

namespace DocumentClient.Wire

inductive WireType where
  | varint
  | fixed64
  | delimited
  | startGroup
  | endGroup
  | fixed32
deriving DecidableEq

namespace WireType

def name : WireType → String
  | .varint => "Varint"
  | .fixed64 => "SixtyFourBit"
  | .delimited => "LengthDelimited"
  | .startGroup => "StartGroup"
  | .endGroup => "EndGroup"
  | .fixed32 => "ThirtyTwoBit"

def toNat : WireType → Nat
  | .varint => 0
  | .fixed64 => 1
  | .delimited => 2
  | .startGroup => 3
  | .endGroup => 4
  | .fixed32 => 5

def ofNat? (n : Nat) : Option WireType :=
  if n = 0 then some .varint
  else if n = 1 then some .fixed64
  else if n = 2 then some .delimited
  else if n = 3 then some .startGroup
  else if n = 4 then some .endGroup
  else if n = 5 then some .fixed32
  else none

end WireType

/-- Why octets are no message of their type. -/
inductive DecodeCause where
  | invalidVarint
  | underflow
  | invalidKey (n : Nat)
  | invalidTag
  | invalidWireType (n : Nat)
  | wireType (actual expected : WireType)
  | notText
  | recursionLimit
  | unexpectedEndGroup
  | lengthExceeded
deriving DecidableEq

def DecodeCause.message : DecodeCause → String
  | .invalidVarint => "invalid varint"
  | .underflow => "buffer underflow"
  | .invalidKey n => "invalid key value: " ++ Decimal.text n
  | .invalidTag => "invalid tag value: 0"
  | .invalidWireType n => "invalid wire type value: " ++ Decimal.text n
  | .wireType actual expected =>
    "invalid wire type: " ++ actual.name ++ " (expected " ++ expected.name ++ ")"
  | .notText => "invalid string value: data is not UTF-8 encoded"
  | .recursionLimit => "recursion limit reached"
  | .unexpectedEndGroup => "unexpected end group tag"
  | .lengthExceeded => "delimited length exceeded"

/-- The payloads that are written. -/
inductive Payload where
  | varint (n : Nat)
  | delimited (octets : Bytes)
deriving DecidableEq

namespace Payload

def wireType : Payload → WireType
  | .varint _ => .varint
  | .delimited _ => .delimited

def encode : Payload → Bytes
  | .varint n => Varint.encode n
  | .delimited octets => Varint.encode octets.length ++ octets

end Payload

structure RawField where
  tag : Nat
  payload : Payload
deriving DecidableEq

namespace RawField

def encode (f : RawField) : Bytes :=
  Varint.encode (f.tag * 8 + f.payload.wireType.toNat) ++ f.payload.encode

def readVarint (s : Bytes) : Except DecodeCause (Nat × Bytes) :=
  match Varint.decode s with
  | some x => .ok x
  | none => .error .invalidVarint

/-- The number of a field and the form of its payload. -/
def readKey (s : Bytes) : Except DecodeCause ((Nat × WireType) × Bytes) :=
  match readVarint s with
  | .error e => .error e
  | .ok (key, r) =>
    if UInt32.size ≤ key then .error (.invalidKey key)
    else
      match WireType.ofNat? (key % 8) with
      | none => .error (.invalidWireType (key % 8))
      | some w => if key / 8 = 0 then .error .invalidTag else .ok ((key / 8, w), r)

def readExactly (n : Nat) (s : Bytes) : Except DecodeCause (Bytes × Bytes) :=
  if n ≤ s.length then .ok (s.take n, s.drop n) else .error .underflow

def readDelimited (s : Bytes) : Except DecodeCause (Bytes × Bytes) :=
  match readVarint s with
  | .error e => .error e
  | .ok (n, r) => readExactly n r

theorem readVarint_length_lt {n : Nat} {s r : Bytes} (h : readVarint s = .ok (n, r)) :
    r.length < s.length := by
  unfold readVarint at h
  split at h
  · next hd =>
    cases h
    exact Varint.decode_length_lt hd
  · cases h

theorem readKey_length_lt {k : Nat × WireType} {s r : Bytes} (h : readKey s = .ok (k, r)) :
    r.length < s.length := by
  rw [readKey] at h
  split at h
  · cases h
  · next hv =>
    have := readVarint_length_lt hv
    repeat' split at h
    all_goals cases h
    exact this

theorem readExactly_length_le {n : Nat} {s r octets : Bytes}
    (h : readExactly n s = .ok (octets, r)) : r.length ≤ s.length := by
  rw [readExactly] at h
  split at h
  · cases h
    simp
  · cases h

theorem readDelimited_length_le {s r octets : Bytes} (h : readDelimited s = .ok (octets, r)) :
    r.length ≤ s.length := by
  rw [readDelimited] at h
  split at h
  · cases h
  · next hv =>
    have := readVarint_length_lt hv
    have := readExactly_length_le h
    omega

/-- Skips the fields of the open groups up to the closing key of the outermost one. The numbers
of the open groups stand innermost first. -/
def skipGroups (budget : Nat) : (groups : List Nat) → Bytes → Except DecodeCause Bytes
  | [], s => .ok s
  | g :: gs, s =>
    match _h : readKey s with
    | .error e => .error e
    | .ok ((tag, .endGroup), r) =>
      if tag = g then skipGroups budget gs r else .error .unexpectedEndGroup
    | .ok ((tag, w), r) =>
      if budget ≤ gs.length + 1 then .error .recursionLimit
      else
        match w with
        | .startGroup => skipGroups budget (tag :: g :: gs) r
        | .varint =>
          match _hv : readVarint r with
          | .error e => .error e
          | .ok (_, r) => skipGroups budget (g :: gs) r
        | .fixed64 =>
          match _hv : readExactly 8 r with
          | .error e => .error e
          | .ok (_, r) => skipGroups budget (g :: gs) r
        | .fixed32 =>
          match _hv : readExactly 4 r with
          | .error e => .error e
          | .ok (_, r) => skipGroups budget (g :: gs) r
        | .delimited =>
          match _hv : readDelimited r with
          | .error e => .error e
          | .ok (_, r) => skipGroups budget (g :: gs) r
        | .endGroup => .error .unexpectedEndGroup
termination_by _ s => s.length
decreasing_by
  all_goals have := readKey_length_lt _h
  · exact this
  · exact this
  · have := readVarint_length_lt _hv
    omega
  · have := readExactly_length_le _hv
    omega
  · have := readExactly_length_le _hv
    omega
  · have := readDelimited_length_le _hv
    omega

theorem skipGroups_length_le {budget : Nat} {groups : List Nat} {s r : Bytes}
    (h : skipGroups budget groups s = .ok r) : r.length ≤ s.length := by
  fun_induction skipGroups budget groups s <;> try cases h
  all_goals try simp
  all_goals
    have := readKey_length_lt ‹readKey _ = _›
    try have := readVarint_length_lt ‹readVarint _ = _›
    try have := readExactly_length_le ‹readExactly _ _ = _›
    try have := readDelimited_length_le ‹readDelimited _ = _›
    have ih := ‹skipGroups _ _ _ = _ → _› h
    omega

/-- Skips the payload of a field whose key has been read. -/
def skip (budget tag : Nat) (w : WireType) (s : Bytes) : Except DecodeCause Bytes :=
  if budget = 0 then .error .recursionLimit
  else
    match w with
    | .varint => (readVarint s).map (·.2)
    | .fixed64 => (readExactly 8 s).map (·.2)
    | .fixed32 => (readExactly 4 s).map (·.2)
    | .delimited => (readDelimited s).map (·.2)
    | .startGroup => skipGroups budget [tag] s
    | .endGroup => .error .unexpectedEndGroup

theorem length_le_of_map_snd {α : Type} {x : Except DecodeCause (α × Bytes)} {s r : Bytes}
    (hx : ∀ a t, x = .ok (a, t) → t.length ≤ s.length) (h : x.map (·.2) = .ok r) :
    r.length ≤ s.length := by
  cases x with
  | error e => cases h
  | ok y =>
    cases h
    exact hx _ _ rfl

theorem skip_length_le {budget tag : Nat} {w : WireType} {s r : Bytes}
    (h : skip budget tag w s = .ok r) : r.length ≤ s.length := by
  unfold skip at h
  split at h
  · cases h
  · split at h
    · exact length_le_of_map_snd (fun _ _ hv => Nat.le_of_lt (readVarint_length_lt hv)) h
    · exact length_le_of_map_snd (fun _ _ => readExactly_length_le) h
    · exact length_le_of_map_snd (fun _ _ => readExactly_length_le) h
    · exact length_le_of_map_snd (fun _ _ => readDelimited_length_le) h
    · exact skipGroups_length_le h
    · cases h

end RawField
end DocumentClient.Wire
