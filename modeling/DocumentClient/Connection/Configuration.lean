import DocumentClient.Connection.Credentials
import DocumentClient.Duration
import DocumentClient.Transcoder

/-!
# Configuration of a cluster

Credentials, the time allowed to each service where a call sets none, and the transcoder and
serializer used where nothing closer sets one.
-/

namespace DocumentClient

structure Configuration where
  credentials : Option Credentials := none
  kvTimeout : Duration := .ofMillis 2500
  queryTimeout : Duration := .ofSeconds 75
  managementTimeout : Duration := .ofSeconds 75
  transcoder : Transcoder := .json .plain
  serializer : Serializer := .plain

inductive ConfigurationRefusal where
  | zeroTimeout (name : String)
  | emptyUsername
deriving DecidableEq

def ConfigurationRefusal.message : ConfigurationRefusal → String
  | .zeroTimeout name => name ++ " must be positive"
  | .emptyUsername => "username must not be empty"

namespace Configuration

/-- The timeouts under their names. -/
def timeouts (c : Configuration) : List (String × Duration) :=
  [("kv_timeout", c.kvTimeout), ("query_timeout", c.queryTimeout),
    ("management_timeout", c.managementTimeout)]

/-- Every timeout is positive and a user has a name. -/
def validate (c : Configuration) : Except ConfigurationRefusal Unit :=
  match c.timeouts.find? fun t => t.2.isZero with
  | some (name, _) => .error (.zeroTimeout name)
  | none =>
    match c.credentials with
    | some auth => if auth.username = "" then .error .emptyUsername else .ok ()
    | none => .ok ()

end Configuration
end DocumentClient
