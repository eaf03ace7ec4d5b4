import DocumentClient.Bytes

/-!
# Percent signs in headers

A header holds printable signs only. An octet that is none is written as a percent sign and two
hexadecimal digits, and a reader takes every such triple for one octet. Writers leave a percent
sign of the text itself alone, so that a text which holds such a triple arrives changed.
-/

namespace DocumentClient.Percent

/-- Reads each percent sign before two hexadecimal digits, and these digits, as one octet. Any
other percent sign stands for itself. -/
def decode : Bytes → Bytes
  | [] => []
  | [a] => [a]
  | [a, b] => [a, b]
  | mark :: a :: b :: s =>
    if mark = 37 then
      match Bytes.hexValue? a, Bytes.hexValue? b with
      | some high, some low => UInt8.ofNat (16 * high + low) :: decode s
      | _, _ => mark :: decode (a :: b :: s)
    else mark :: decode (a :: b :: s)

end DocumentClient.Percent
