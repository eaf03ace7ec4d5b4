import DocumentClient.Bytes
import DocumentClient.Connection.Endpoint

/-!
# Web addresses

Which endpoints can be dialled at all: a scheme, an authority that is not empty, and a path and
query, each of the octets that may stand there.
-/

namespace DocumentClient.WebAddress

def isLetterOrDigit (b : UInt8) : Bool :=
  (48 ≤ b && b ≤ 57) || (65 ≤ b && b ≤ 90) || (97 ≤ b && b ≤ 122)

/-- The other octets that may stand in an authority: `! $ & ' ( ) * + , - . : ; = @ [ ] _ ~`
and the percent sign. -/
def authoritySigns : Bytes :=
  [33, 36, 37, 38, 39, 40, 41, 42, 43, 44, 45, 46, 58, 59, 61, 64, 91, 93, 95, 126]

/-- What has been seen of an authority so far. -/
structure Scan where
  colons : Nat := 0
  opened : Bool := false
  closed : Bool := false
  percent : Bool := false
  atSign : Bool := false

/-- An authority read from its front: at most one colon after a user and after brackets, no
percent sign in the host outside of brackets, and a host after a user. -/
def scanAuthority (s : Scan) : Bytes → Bool
  | [] => s.opened == s.closed && s.colons ≤ 1 && !s.atSign && !s.percent
  | b :: rest =>
    let s := { s with atSign := false }
    if b = 58 then s.colons < 8 && scanAuthority { s with colons := s.colons + 1 } rest
    else if b = 91 then
      !s.percent && !s.opened && scanAuthority { s with opened := true } rest
    else if b = 93 then
      s.opened && !s.closed
        && scanAuthority { s with closed := true, colons := 0, percent := false } rest
    else if b = 64 then
      scanAuthority { s with atSign := true, colons := 0, percent := false } rest
    else if b = 37 then scanAuthority { s with percent := true } rest
    else (isLetterOrDigit b || authoritySigns.contains b) && scanAuthority s rest

def isPathByte (b : UInt8) : Bool :=
  b == 33 || (36 ≤ b && b ≤ 59) || b == 61 || (64 ≤ b && b ≤ 95) || (97 ≤ b && b ≤ 122)
    || b == 124 || b == 126 || b == 34 || b == 123 || b == 125

def isQueryByte (b : UInt8) : Bool :=
  b == 33 || (36 ≤ b && b ≤ 59) || b == 61 || (63 ≤ b && b ≤ 126)

/-- A path and query up to a number sign; what follows it is not looked at. -/
def isPathAndQuery (s : Bytes) : Bool :=
  let path := s.takeWhile fun b => b ≠ 63 && b ≠ 35
  let query := match s.drop path.length with
    | 63 :: rest => rest.takeWhile (· ≠ 35)
    | _ => []
  path.all isPathByte && query.all isQueryByte

/-- The longest address in octets. -/
def maxLength : Nat := 65534

def afterScheme? (address : List Char) : Option (List Char) :=
  (Endpoint.after? "http://".toList address).or (Endpoint.after? "https://".toList address)

def isValid (address : String) : Bool :=
  match afterScheme? address.toList with
  | none => false
  | some rest =>
    let s := Bytes.ofString (String.ofList rest)
    let authority := s.takeWhile fun b => b ≠ 47 && b ≠ 63 && b ≠ 35
    address.utf8ByteSize ≤ maxLength && !authority.isEmpty && scanAuthority {} authority
      && isPathAndQuery (s.drop authority.length)

end DocumentClient.WebAddress
