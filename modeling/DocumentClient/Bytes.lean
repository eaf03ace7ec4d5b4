/-!
# Octets

Everything that crosses the wire is a list of octets. This module holds the two readings of
such a list: as UTF-8 text and as hexadecimal digits. A string and its octets determine each
other; not every list of octets is a string.
-/

namespace DocumentClient

abbrev Bytes := List UInt8

namespace Bytes

/-- The UTF-8 octets of a text. -/
def ofString (s : String) : Bytes := s.toUTF8.data.toList

/-- The text whose UTF-8 octets these are, if there is one. -/
def toString? (b : Bytes) : Option String := String.fromUTF8? ⟨b.toArray⟩

/-- Where the whole UTF-8 characters from place `i` on end. -/
def endOfText (b : ByteArray) (i : Nat) : Nat :=
  if i < b.size then
    match b.utf8DecodeChar? i with
    | some c => endOfText b (i + c.utf8Size)
    | none => i
  else i
termination_by b.size - i
decreasing_by
  have := c.utf8Size_pos
  omega

/-- What follows the longest piece at the front that is UTF-8 text. -/
def dropText (b : Bytes) : Bytes := b.drop (endOfText ⟨b.toArray⟩ 0)

theorem toString?_ofString (s : String) : toString? (ofString s) = some s := by
  have valid : ByteArray.IsValidUTF8 ⟨s.toUTF8.data⟩ := s.isValidUTF8
  simp only [toString?, ofString, Array.toArray_toList, String.fromUTF8?, valid, ↓reduceDIte]
  rfl

/-- One lower case hexadecimal digit. -/
def hexDigit (n : Nat) : Char := Char.ofNat (if n < 10 then 48 + n else 87 + n)

/-- Two lower case hexadecimal digits for each octet. -/
def hex (b : Bytes) : String :=
  String.ofList (b.flatMap fun x => [hexDigit (x.toNat / 16), hexDigit (x.toNat % 16)])

/-- The value of a hexadecimal digit of either case. -/
def hexValue? (b : UInt8) : Option Nat :=
  let n := b.toNat
  if 48 ≤ n ∧ n ≤ 57 then some (n - 48)
  else if 97 ≤ n ∧ n ≤ 102 then some (n - 87)
  else if 65 ≤ n ∧ n ≤ 70 then some (n - 55)
  else none

/-- Reads pairs of hexadecimal digits. -/
def ofHex? : Bytes → Option Bytes
  | [] => some []
  | [_] => none
  | a :: b :: rest => do
    let high ← hexValue? a
    let low ← hexValue? b
    let tail ← ofHex? rest
    return UInt8.ofNat (16 * high + low) :: tail

end Bytes
end DocumentClient
