import DocumentClient.Wire.Layout

/-!
# Single values on the wire

Keys and single values are read back as they were written, whatever follows them. Of octets that
are counted the count must have 64 bits; nothing else is asked. A kind of value for which this holds
is faithful. Main statement: all seven kinds of single values are.
-/

namespace DocumentClient.Wire

/-- A counted run of octets has a count of 64 bits. -/
def Payload.Fits : Payload → Prop
  | .varint _ => True
  | .delimited octets => octets.length < UInt64.size

namespace RawField
variable {rest : Bytes}

theorem readVarint_encode {n : Nat} (h : n < UInt64.size) :
    readVarint (Varint.encode n ++ rest) = .ok (n, rest) := by
  rw [readVarint, Varint.decode_encode h]

theorem readDelimited_encode {octets : Bytes} (fits : (Payload.delimited octets).Fits) :
    readDelimited ((Payload.delimited octets).encode ++ rest) = .ok (octets, rest) := by
  rw [Payload.encode, List.append_assoc, readDelimited, readVarint_encode fits]
  simp [readExactly]

theorem ofNat?_toNat (w : WireType) : WireType.ofNat? w.toNat = some w := by
  cases w <;> rfl

theorem readKey_encode {tag : Nat} (positive : 0 < tag) (small : tag < 0x20000000) (w : WireType) :
    readKey (Varint.encode (tag * 8 + w.toNat) ++ rest) = .ok ((tag, w), rest) := by
  have low : w.toNat < 8 := by cases w <;> decide
  have key : tag * 8 + w.toNat < UInt32.size := by
    rw [show UInt32.size = 0x100000000 from rfl]
    omega
  have wide : tag * 8 + w.toNat < UInt64.size := Nat.lt_trans key (by decide)
  have form : (tag * 8 + w.toNat) % 8 = w.toNat := by omega
  have number : (tag * 8 + w.toNat) / 8 = tag := by omega
  rw [readKey, readVarint_encode wide]
  simp only
  rw [if_neg (Nat.not_le.mpr key), form, ofNat?_toNat, number]
  simp only
  rw [if_neg (Nat.ne_of_gt positive)]

end RawField

namespace Scalar
variable {α : Type}

/-- What is written is read back, whatever follows it. -/
class Faithful (scalar : Scalar α) : Prop where
  wireType : ∀ a, (scalar.write a).wireType = scalar.wireType
  read : ∀ a rest, (scalar.write a).Fits →
    scalar.read ((scalar.write a).encode ++ rest) = .ok (a, rest)

theorem faithful_ofNumber {default : α} {toNat : α → Nat} {ofNat : Nat → α}
    (small : ∀ a, toNat a < UInt64.size) (inverse : ∀ a, ofNat (toNat a) = a) :
    (ofNumber default toNat ofNat).Faithful := by
  constructor
  · exact fun _ => rfl
  · intro a rest _
    change (RawField.readVarint (Varint.encode (toNat a) ++ rest)).map _ = _
    rw [RawField.readVarint_encode (small a), Except.map, inverse]

instance : bool.Faithful :=
  faithful_ofNumber (fun b => by cases b <;> decide) fun b => by cases b <;> rfl

instance : uint32.Faithful :=
  faithful_ofNumber (fun n => Nat.lt_trans n.toNat_lt (by decide)) fun _ => UInt32.ofNat_toNat

instance : uint64.Faithful :=
  faithful_ofNumber (fun n => n.toNat_lt) fun _ => UInt64.ofNat_toNat

/-- Widening a number adds only copies of its sign, which are cut off again. -/
theorem int32_ofNat (n : Int32) : Int32.ofNat n.toInt64.toUInt64.toNat = n := by
  apply Int32.toBitVec_inj.mp
  change (n.toBitVec.signExtend 64).setWidth 32 = n.toBitVec
  apply BitVec.eq_of_getLsbD_eq
  intro i hi
  simp [BitVec.getLsbD_signExtend, hi]
  omega

instance : int32.Faithful :=
  faithful_ofNumber (fun n => n.toInt64.toUInt64.toNat_lt) int32_ofNat

theorem int64_ofNat (n : Int64) : Int64.ofNat n.toUInt64.toNat = n := by
  apply Int64.toBitVec_inj.mp
  simp

instance : int64.Faithful :=
  faithful_ofNumber (fun n => n.toUInt64.toNat_lt) int64_ofNat

instance : bytes.Faithful where
  wireType _ := rfl
  read _ _ fits := RawField.readDelimited_encode fits

instance : text.Faithful where
  wireType _ := rfl
  read t rest fits := by
    change readText ((Payload.delimited (Bytes.ofString t)).encode ++ rest) = _
    rw [readText, RawField.readDelimited_encode fits]
    simp only [Bytes.toString?_ofString]

variable {scalar : Scalar α} [scalar.Faithful]

theorem readAs_write (a : α) (rest : Bytes) (fits : (scalar.write a).Fits) :
    scalar.readAs (scalar.write a).wireType ((scalar.write a).encode ++ rest) = .ok (a, rest) := by
  rw [readAs, if_pos (Faithful.wireType a), Faithful.read a rest fits]

end Scalar
end DocumentClient.Wire
