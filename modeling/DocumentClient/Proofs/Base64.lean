import DocumentClient.Base64
import Mathlib.Algebra.Ring.Nat

/-!
# Standard base64

The bits of the octets are written six to a digit, with zeros in what the octets leave of the last
digit, and equals signs where the last group of four has no digits. So for any octets there is one
text and no other (`standard_iff`), and reading it gives the octets back (`decode_encode`).
-/

namespace DocumentClient.Base64

/-- The last `width` bits of a number, the most significant one first. -/
def bits : (width n : Nat) → List Bool
  | 0, _ => []
  | width + 1, n => bits width (n / 2) ++ [n % 2 == 1]

theorem length_bits (width n : Nat) : (bits width n).length = width := by
  induction width generalizing n with
  | zero => rfl
  | succ width ih => rw [bits, List.length_append, ih, List.length_singleton]

/-- Bits that follow those of a number make up a greater number with it. -/
theorem bits_append (v m : Nat) {w n : Nat} (small : n < 2 ^ w) :
    bits v m ++ bits w n = bits (v + w) (m * 2 ^ w + n) := by
  induction w generalizing n with
  | zero =>
    obtain rfl : n = 0 := by omega
    simp [bits]
  | succ w ih =>
    rw [pow_succ] at small ⊢
    have half : (m * (2 ^ w * 2) + n) / 2 = m * 2 ^ w + n / 2 := by
      rw [← Nat.mul_assoc]
      omega
    have low : (m * (2 ^ w * 2) + n) % 2 = n % 2 := by
      rw [← Nat.mul_assoc]
      omega
    rw [bits, ← Nat.add_assoc, bits, half, low, ← List.append_assoc, ih (by omega)]

theorem bits_inj {w m n : Nat} (hm : m < 2 ^ w) (hn : n < 2 ^ w) (same : bits w m = bits w n) :
    m = n := by
  induction w generalizing m n with
  | zero => omega
  | succ w ih =>
    rw [pow_succ] at hm hn
    obtain ⟨front, back⟩ := List.append_inj' same rfl
    have halves : m / 2 = n / 2 := ih (by omega) (by omega) front
    have low : m % 2 = n % 2 := by
      have last := List.singleton_inj.mp back
      rw [Bool.eq_iff_iff, beq_iff_eq, beq_iff_eq] at last
      omega
    omega

theorem length_flatMap {α : Type} {f : α → List Bool} {w : Nat} (each : ∀ a, (f a).length = w)
    (l : List α) : (l.flatMap f).length = w * l.length := by
  induction l with
  | nil => rfl
  | cons a l ih =>
    rw [List.flatMap_cons, List.length_append, each, ih, List.length_cons, Nat.mul_add_one,
      Nat.add_comm]

/-- The bits of octets. -/
def octetBits (octets : Bytes) : List Bool := octets.flatMap fun b => bits 8 b.toNat

def alphabet : List Char :=
  "ABCDEFGHIJKLMNOPQRSTUVWXYZabcdefghijklmnopqrstuvwxyz0123456789+/".toList

def digit (n : Nat) : Char := alphabet.getD n '='

/-- The text of octets: all their bits, six to a digit of the alphabet, with less than a digit of
zeros after them, and equals signs to fill the last group of four. -/
inductive Standard (octets : Bytes) (text : List Char) : Prop where
  | spelled (digits : List Nat) (zeros fill : Nat)
    (written : text = digits.map digit ++ List.replicate fill '=') (small : ∀ d ∈ digits, d < 64)
    (content : digits.flatMap (bits 6) = octetBits octets ++ List.replicate zeros false)
    (few : zeros < 6) (whole : (digits.length + fill) % 4 = 0) (short : fill < 4)

theorem digits_unique {ds es : List Nat} (hd : ∀ d ∈ ds, d < 64) (he : ∀ e ∈ es, e < 64)
    (same : ds.flatMap (bits 6) = es.flatMap (bits 6)) : ds = es := by
  induction ds generalizing es with
  | nil =>
    cases es with
    | nil => rfl
    | cons e es => cases same
  | cons d ds ih =>
    cases es with
    | nil => cases same
    | cons e es =>
      rw [List.forall_mem_cons] at hd he
      rw [List.flatMap_cons, List.flatMap_cons] at same
      obtain ⟨first, rest⟩ := List.append_inj same (by rw [length_bits, length_bits])
      rw [bits_inj hd.1 he.1 first, ih hd.2 he.2 rest]

theorem Standard.unique {octets : Bytes} {s t : List Char} (hs : Standard octets s)
    (ht : Standard octets t) : s = t := by
  obtain ⟨ds, y, f, rfl, smallD, contentD, fewD, wholeD, shortD⟩ := hs
  obtain ⟨es, z, g, rfl, smallE, contentE, fewE, wholeE, shortE⟩ := ht
  have lengthD := congrArg List.length contentD
  have lengthE := congrArg List.length contentE
  rw [List.length_append, List.length_replicate, octetBits, length_flatMap (length_bits 6),
    length_flatMap fun _ => length_bits 8 _] at lengthD lengthE
  have zeros : y = z := by omega
  have fill : f = g := by omega
  subst zeros fill
  rw [digits_unique smallD smallE (contentD.trans contentE.symm)]

theorem digit_eq_char : ∀ {n : Nat}, n < 64 → digit n = char n := by
  decide

theorem octet_append (v m : Nat) (b : UInt8) :
    bits v m ++ bits 8 b.toNat = bits (v + 8) (m * 256 + b.toNat) :=
  bits_append v m b.toNat_lt

theorem digit_append (v m : Nat) {n : Nat} (small : n < 64) :
    bits v m ++ bits 6 n = bits (v + 6) (m * 64 + n) :=
  bits_append v m small

theorem map_digit {ns : List Nat} (small : ∀ n ∈ ns, n < 64) : ns.map char = ns.map digit :=
  List.map_congr_left fun n hn => (digit_eq_char (small n hn)).symm

/-- The digits of one group have the bits of its octets, and zeros after them. -/
theorem group_of_one (a : UInt8) : let n := a.toNat * 16
    [n / 64, n % 64].flatMap (bits 6) = octetBits [a] ++ List.replicate 4 false := by
  intro n
  have zeros : List.replicate 4 false = bits 4 0 := rfl
  simp only [octetBits, List.flatMap_cons, List.flatMap_nil, List.append_nil, zeros]
  rw [digit_append 6 _ (Nat.mod_lt n (by decide)), bits_append 8 _ (by decide : 0 < 2 ^ 4)]
  exact congrArg (bits 12) (by omega)

theorem group_of_two (a b : UInt8) : let n := (a.toNat * 256 + b.toNat) * 4
    [n / 4096, n / 64 % 64, n % 64].flatMap (bits 6) =
      octetBits [a, b] ++ List.replicate 2 false := by
  intro n
  have zeros : List.replicate 2 false = bits 2 0 := rfl
  simp only [octetBits, List.flatMap_cons, List.flatMap_nil, List.append_nil, zeros,
    ← List.append_assoc]
  rw [digit_append 6 _ (Nat.mod_lt _ (by decide)), digit_append 12 _ (Nat.mod_lt _ (by decide)),
    octet_append, bits_append 16 _ (by decide : 0 < 2 ^ 2)]
  exact congrArg (bits 18) (by omega)

theorem group_of_three (a b c : UInt8) : let n := (a.toNat * 256 + b.toNat) * 256 + c.toNat
    [n / 262144, n / 4096 % 64, n / 64 % 64, n % 64].flatMap (bits 6) = octetBits [a, b, c] := by
  intro n
  simp only [octetBits, List.flatMap_cons, List.flatMap_nil, List.append_nil, ← List.append_assoc]
  rw [digit_append 6 _ (Nat.mod_lt _ (by decide)), digit_append 12 _ (Nat.mod_lt _ (by decide)),
    digit_append 18 _ (Nat.mod_lt _ (by decide)), octet_append, octet_append]
  exact congrArg (bits 24) (by omega)

theorem standard_encode (octets : Bytes) : Standard octets (encode octets) := by
  fun_induction encode octets with
  | case1 => exact .spelled [] 0 0 rfl (List.forall_mem_nil _) rfl (by omega) rfl (by omega)
  | case2 a n =>
    have top := a.toNat_lt
    have small : ∀ d ∈ [n / 64, n % 64], d < 64 := by
      simp only [List.forall_mem_cons, List.not_mem_nil, false_implies, implies_true, and_true]
      omega
    refine .spelled _ 4 2 ?_ small (group_of_one a) (by omega) (by simp) (by omega)
    rw [← map_digit small]
    rfl
  | case3 a b n =>
    have topA := a.toNat_lt
    have topB := b.toNat_lt
    have small : ∀ d ∈ [n / 4096, n / 64 % 64, n % 64], d < 64 := by
      simp only [List.forall_mem_cons, List.not_mem_nil, false_implies, implies_true, and_true]
      omega
    refine .spelled _ 2 1 ?_ small (group_of_two a b) (by omega) (by simp) (by omega)
    rw [← map_digit small]
    rfl
  | case4 a b c rest n ih =>
    have topA := a.toNat_lt
    have topB := b.toNat_lt
    have topC := c.toNat_lt
    have first : ∀ d ∈ [n / 262144, n / 4096 % 64, n / 64 % 64, n % 64], d < 64 := by
      simp only [List.forall_mem_cons, List.not_mem_nil, false_implies, implies_true, and_true]
      omega
    obtain ⟨digits, zeros, fill, written, small, content, few, whole, short⟩ := ih
    refine .spelled (_ ++ digits) zeros fill ?_ (List.forall_mem_append.mpr ⟨first, small⟩) ?_ few
      ?_ short
    · rw [written, List.map_append, ← map_digit first]
      rfl
    · rw [List.flatMap_append, content, ← List.append_assoc]
      exact congrArg (· ++ List.replicate zeros false) (congrArg (· ++ _) (group_of_three a b c))
    · rw [List.length_append, Nat.add_assoc]
      simp only [List.length_cons, List.length_nil]
      omega

/-- There is one standard text for any octets. -/
theorem standard_iff {octets : Bytes} {text : List Char} :
    Standard octets text ↔ text = encode octets := by
  constructor
  · exact fun standard => standard.unique (standard_encode octets)
  · rintro rfl
    exact standard_encode octets

theorem value?_char : ∀ {n : Nat}, n < 64 → value? (char n) = some n := by
  decide

theorem char_ne : ∀ {n : Nat}, n < 64 → char n ≠ '=' := by
  decide

/-- What is written for octets is read as these octets. -/
theorem decode_encode (octets : Bytes) : decode (encode octets) = some octets := by
  fun_induction encode octets with
  | case1 => rfl
  | case2 a n =>
    have top := a.toNat_lt
    have high : n / 64 < 64 := by omega
    have low : n % 64 < 64 := by omega
    have back : (n / 64 * 64 + n % 64) / 16 = a.toNat := by omega
    rw [decode, value?_char high, value?_char low]
    change some [UInt8.ofNat ((n / 64 * 64 + n % 64) / 16)] = some [a]
    rw [back, UInt8.ofNat_toNat]
  | case3 a b n =>
    have topA := a.toNat_lt
    have topB := b.toNat_lt
    have high : n / 4096 < 64 := by omega
    have mid : n / 64 % 64 < 64 := by omega
    have low : n % 64 < 64 := by omega
    have back : ((n / 4096 * 64 + n / 64 % 64) * 64 + n % 64) / 4 = a.toNat * 256 + b.toNat := by
      omega
    have first : (a.toNat * 256 + b.toNat) / 256 = a.toNat := by omega
    have second : (a.toNat * 256 + b.toNat) % 256 = b.toNat := by omega
    rw [decode, value?_char high, value?_char mid, value?_char low]
    · change some [UInt8.ofNat (((n / 4096 * 64 + n / 64 % 64) * 64 + n % 64) / 4 / 256),
        UInt8.ofNat (((n / 4096 * 64 + n / 64 % 64) * 64 + n % 64) / 4 % 256)] = some [a, b]
      rw [back, first, second, UInt8.ofNat_toNat, UInt8.ofNat_toNat]
    · exact char_ne low
  | case4 a b c rest n ih =>
    have topA := a.toNat_lt
    have topB := b.toNat_lt
    have topC := c.toNat_lt
    have top : n / 262144 < 64 := by omega
    have high : n / 4096 % 64 < 64 := by omega
    have mid : n / 64 % 64 < 64 := by omega
    have low : n % 64 < 64 := by omega
    have back : ((n / 262144 * 64 + n / 4096 % 64) * 64 + n / 64 % 64) * 64 + n % 64 = n := by
      omega
    have first : n / 65536 = a.toNat := by omega
    have second : n / 256 % 256 = b.toNat := by omega
    have third : n % 256 = c.toNat := by omega
    rw [decode, value?_char top, value?_char high, value?_char mid, value?_char low, ih]
    · simp only [Option.bind_eq_bind, Option.bind_some, back, first, second, third,
        UInt8.ofNat_toNat]
      rfl
    · exact fun _ sign _ => char_ne low sign
    · exact fun sign _ => char_ne low sign

end DocumentClient.Base64
