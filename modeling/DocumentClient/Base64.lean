import DocumentClient.Bytes

/-!
# Base64

Octets as text in the standard alphabet: three octets become four characters, and the last
group is filled up with equals signs.
-/

namespace DocumentClient.Base64

/-- The character of six bits. -/
def char (n : Nat) : Char :=
  if n < 26 then Char.ofNat (65 + n)
  else if n < 52 then Char.ofNat (71 + n)
  else if n < 62 then Char.ofNat (n - 4)
  else if n = 62 then '+'
  else '/'

/-- The six bits of a character. -/
def value? (c : Char) : Option Nat :=
  let n := c.toNat
  if 65 ≤ n ∧ n ≤ 90 then some (n - 65)
  else if 97 ≤ n ∧ n ≤ 122 then some (n - 71)
  else if 48 ≤ n ∧ n ≤ 57 then some (n + 4)
  else if c = '+' then some 62
  else if c = '/' then some 63
  else none

def encode : Bytes → List Char
  | [] => []
  | [a] =>
    let n := a.toNat * 16
    [char (n / 64), char (n % 64), '=', '=']
  | [a, b] =>
    let n := (a.toNat * 256 + b.toNat) * 4
    [char (n / 4096), char (n / 64 % 64), char (n % 64), '=']
  | a :: b :: c :: rest =>
    let n := (a.toNat * 256 + b.toNat) * 256 + c.toNat
    char (n / 262144) :: char (n / 4096 % 64) :: char (n / 64 % 64) :: char (n % 64) :: encode rest

/-- Reads groups of four characters; only the last one may be filled up. -/
def decode : List Char → Option Bytes
  | [] => some []
  | [p, q, '=', '='] => do
    let a ← value? p
    let b ← value? q
    return [UInt8.ofNat ((a * 64 + b) / 16)]
  | [p, q, r, '='] => do
    let a ← value? p
    let b ← value? q
    let c ← value? r
    let n := ((a * 64 + b) * 64 + c) / 4
    return [UInt8.ofNat (n / 256), UInt8.ofNat (n % 256)]
  | p :: q :: r :: s :: rest => do
    let a ← value? p
    let b ← value? q
    let c ← value? r
    let d ← value? s
    let n := ((a * 64 + b) * 64 + c) * 64 + d
    let tail ← decode rest
    return UInt8.ofNat (n / 65536) :: UInt8.ofNat (n / 256 % 256) :: UInt8.ofNat (n % 256) :: tail
  | _ => none

end DocumentClient.Base64
