import DocumentClient.Bytes
import DocumentClient.Decimal

/-!
# Octets that are no text

Where a list of octets stops being UTF-8, and why: octets that are part of no character, or the
end of the list in the middle of one. The octets that count together are the longest piece that
could still have become a character.
-/

namespace DocumentClient

inductive EncodingFault where
  | stray (place count : Nat)
  | cut (place : Nat)
deriving DecidableEq

namespace EncodingFault

def message : EncodingFault → String
  | .stray place count =>
    "invalid utf-8 sequence of " ++ Decimal.text count ++ " bytes from index "
      ++ Decimal.text place
  | .cut place => "incomplete utf-8 byte sequence from index " ++ Decimal.text place

/-- First and last octet at each place that follows the first octet of a character. The narrow
ranges exclude longer forms than needed, surrogates and numbers beyond the last character. -/
def followers (lead : UInt8) : List (UInt8 × UInt8) :=
  if lead < 0xc2 then []
  else if lead < 0xe0 then [(0x80, 0xbf)]
  else if lead = 0xe0 then [(0xa0, 0xbf), (0x80, 0xbf)]
  else if lead = 0xed then [(0x80, 0x9f), (0x80, 0xbf)]
  else if lead < 0xf0 then [(0x80, 0xbf), (0x80, 0xbf)]
  else if lead = 0xf0 then [(0x90, 0xbf), (0x80, 0xbf), (0x80, 0xbf)]
  else if lead < 0xf4 then [(0x80, 0xbf), (0x80, 0xbf), (0x80, 0xbf)]
  else if lead = 0xf4 then [(0x80, 0x8f), (0x80, 0xbf), (0x80, 0xbf)]
  else []

/-- How many octets at the front lie in the ranges, one in each; none if the octets end first. -/
def agreeing : List (UInt8 × UInt8) → Bytes → Option Nat
  | [], _ => some 0
  | _ :: _, [] => none
  | (first, last) :: ranges, b :: s =>
    if first ≤ b ∧ b ≤ last then (agreeing ranges s).map (· + 1) else some 0

/-- The fault of octets that begin with no whole character, at a place in a longer list. -/
def ofRest (place : Nat) : Bytes → EncodingFault
  | [] => .cut place
  | lead :: s =>
    match agreeing (followers lead) s with
    | some n => .stray place (n + 1)
    | none => .cut place

end EncodingFault

/-- The text whose UTF-8 octets these are, or the place where they stop being any text's. -/
def Bytes.text (b : Bytes) : Except EncodingFault String :=
  match Bytes.toString? b with
  | some s => .ok s
  | none =>
    let rest := Bytes.dropText b
    .error (.ofRest (b.length - rest.length) rest)

end DocumentClient
