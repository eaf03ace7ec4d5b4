import DocumentClient.Base64
import DocumentClient.Text.Quoted

/-!
# Credentials

A user name and a password. They travel in a header as base64; the password is never shown.
-/

namespace DocumentClient

structure Credentials where
  username : String
  password : String
deriving DecidableEq

namespace Credentials

/-- The characters of header text: printable ones of the ASCII range and the tabulator. -/
def isHeaderChar (c : Char) : Bool := (32 ≤ c.toNat && c.toNat < 127) || c = '\t'

/-- The header that carries the credentials. -/
def headerText (c : Credentials) : String :=
  "Basic " ++ String.ofList (Base64.encode (Bytes.ofString (c.username ++ ":" ++ c.password)))

/-- The header, if it is header text. -/
def header? (c : Credentials) : Option String :=
  if c.headerText.toList.all isHeaderChar then some c.headerText else none

/-- The credentials as they may be shown. -/
def display (c : Credentials) : String :=
  "PasswordAuthenticator \x7b username: " ++ Text.quoted c.username
    ++ ", password: \"<redacted>\" \x7d"

end Credentials
end DocumentClient
