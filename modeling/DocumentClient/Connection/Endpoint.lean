import DocumentClient.Decimal
import DocumentClient.Text.Blank

/-!
# Endpoints

A connection string names the seed hosts of a cluster. Only the first one is dialled, at its
port or the default one; paths and parameters play no part. A web address is taken as it is.
-/

namespace DocumentClient

/-- Why a connection string is refused. -/
inductive AddressRefusal where
  | unsupported (conn : String)
  | noHost (conn : String)
  | invalidPort (port : String)
deriving DecidableEq

def AddressRefusal.message : AddressRefusal → String
  | .unsupported conn => "unsupported connection string '" ++ conn ++ "'"
  | .noHost conn => "connection string '" ++ conn ++ "' has no host"
  | .invalidPort port => "invalid port '" ++ port ++ "' in connection string"

namespace Endpoint

def defaultPort : Nat := 18098

/-- What follows `start` in a list of characters that begins with it. -/
def after? : (start cs : List Char) → Option (List Char)
  | [], cs => some cs
  | _ :: _, [] => none
  | s :: start, c :: cs => if s = c then after? start cs else none

/-- The first seed host with its port: what stands before a slash, a question mark or a comma. -/
def authority (cs : List Char) : List Char :=
  (cs.takeWhile fun c => c ≠ '/' && c ≠ '?').takeWhile (· ≠ ',')

/-- Splits at the last colon. -/
def splitLastColon? (cs : List Char) : Option (List Char × List Char) :=
  let port := (cs.reverse.takeWhile (· ≠ ':')).reverse
  if port.length < cs.length then some (cs.take (cs.length - port.length - 1), port) else none

def withPort (authority : List Char) : String :=
  "http://" ++ String.ofList authority ++ ":" ++ Decimal.text defaultPort

/-- The endpoint of a seed host. A literal address in brackets needs no port. -/
def ofAuthority (conn authority : List Char) : Except AddressRefusal String :=
  if authority = [] then .error (.noHost (String.ofList conn))
  else
    match splitLastColon? authority with
    | none => .ok (withPort authority)
    | some (host, port) =>
      if host = [] then .error (.noHost (String.ofList conn))
      else if (Decimal.read? UInt16.size port).isSome then
        .ok ("http://" ++ String.ofList authority)
      else if authority.head? = some '[' ∧ authority.getLast? = some ']' then
        .ok (withPort authority)
      else .error (.invalidPort (String.ofList port))

/-- The address to dial for a connection string, blanks at its ends aside. -/
def ofConnectionString (conn : String) : Except AddressRefusal String :=
  let conn := Text.trimChars conn.toList
  if (after? "http://".toList conn).isSome ∨ (after? "https://".toList conn).isSome then
    .ok (String.ofList conn)
  else
    match after? "stellar://".toList conn with
    | none => .error (.unsupported (String.ofList conn))
    | some rest => ofAuthority conn (authority rest)

end Endpoint
end DocumentClient
