import DocumentClient.Bytes

/-!
# Variable length numbers

A number in groups of seven bits, the lowest first; the high bit of an octet says that another
one follows. A reader takes at most ten octets and only numbers below 2^64. Main statement:
what is written is read back, whatever follows it.
-/

namespace DocumentClient.Wire.Varint

def encode (n : Nat) : Bytes :=
  if n < 128 then [UInt8.ofNat n] else UInt8.ofNat (n % 128 + 128) :: encode (n / 128)

/-- Reads a number from at most `left` octets; the last of them may hold one bit. -/
def decodeUpTo : (left : Nat) → Bytes → Option (Nat × Bytes)
  | 0, _ => none
  | _ + 1, [] => none
  | left + 1, b :: s =>
    if b < 128 then
      if left = 0 ∧ 2 ≤ b then none else some (b.toNat, s)
    else
      match decodeUpTo left s with
      | none => none
      | some (n, r) => some (b.toNat - 128 + 128 * n, r)

def decode (s : Bytes) : Option (Nat × Bytes) := decodeUpTo 10 s

/-- The numbers below this fit where a last octet of one bit follows `left` others. -/
def capacity : (left : Nat) → Nat
  | 0 => 2
  | left + 1 => capacity left * 128

theorem capacity_nine : capacity 9 = UInt64.size := rfl

theorem decodeUpTo_encode (left n : Nat) (s : Bytes) (h : n < capacity left) :
    decodeUpTo (left + 1) (encode n ++ s) = some (n, s) := by
  induction left generalizing n with
  | zero =>
    have hn : n < 2 := h
    rw [encode, if_pos (by omega)]
    rcases (by omega : n = 0 ∨ n = 1) with rfl | rfl <;> rfl
  | succ left ih =>
    rw [encode]
    split
    · next hn =>
      have small : UInt8.ofNat n < 128 := by
        simp only [UInt8.lt_iff_toNat_lt, UInt8.toNat_ofNat]
        show n % 256 < 128
        omega
      have value : (UInt8.ofNat n).toNat = n := by
        simp only [UInt8.toNat_ofNat']
        omega
      simp [decodeUpTo, small, value]
    · next hn =>
      have large : ¬ UInt8.ofNat (n % 128 + 128) < 128 := by
        simp only [UInt8.lt_iff_toNat_lt, UInt8.toNat_ofNat']
        show ¬ (n % 128 + 128) % 256 < 128
        omega
      have value : (UInt8.ofNat (n % 128 + 128)).toNat = n % 128 + 128 := by
        simp only [UInt8.toNat_ofNat']
        omega
      rw [List.cons_append, decodeUpTo, if_neg large,
        ih (n / 128) (by rw [capacity] at h; omega),
        value]
      simp only [Option.some.injEq, Prod.mk.injEq, and_true]
      omega

theorem decode_encode {n : Nat} (h : n < UInt64.size) (s : Bytes) :
    decode (encode n ++ s) = some (n, s) :=
  decodeUpTo_encode 9 n s (capacity_nine ▸ h)

theorem decodeUpTo_length_lt {left n : Nat} {s r : Bytes} (h : decodeUpTo left s = some (n, r)) :
    r.length < s.length := by
  fun_induction decodeUpTo left s generalizing n with
  | case1 | case2 | case3 | case5 => cases h
  | case4 =>
    cases h
    simp
  | case6 left b s _ _ _ hd ih =>
    cases h
    have := ih hd
    simp only [List.length_cons]
    omega

theorem decode_length_lt {n : Nat} {s r : Bytes} (h : decode s = some (n, r)) :
    r.length < s.length :=
  decodeUpTo_length_lt h

end DocumentClient.Wire.Varint
