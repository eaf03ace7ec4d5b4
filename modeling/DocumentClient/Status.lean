import DocumentClient.ErrorKind
import DocumentClient.Text.EncodingFault
import DocumentClient.Text.Percent
import DocumentClient.Wire.Status

/-!
# Statuses

A call that fails ends with a status: a code, a message and details. The details, when they
can be read, say what the failure is about; otherwise the code alone decides its kind.
-/

namespace DocumentClient

inductive StatusCode where
  | success
  | cancelled
  | unknown
  | invalidArgument
  | deadlineExceeded
  | notFound
  | alreadyExists
  | permissionDenied
  | resourceExhausted
  | failedPrecondition
  | aborted
  | outOfRange
  | unimplemented
  | internal
  | unavailable
  | dataLoss
  | unauthenticated
deriving DecidableEq

namespace StatusCode

/-- The codes by their numbers, from 0. -/
def all : List StatusCode :=
  [.success, .cancelled, .unknown, .invalidArgument, .deadlineExceeded, .notFound,
    .alreadyExists, .permissionDenied, .resourceExhausted, .failedPrecondition, .aborted,
    .outOfRange, .unimplemented, .internal, .unavailable, .dataLoss, .unauthenticated]

/-- The code with a number; a number without a code is unknown. -/
def ofInt (n : Int) : StatusCode :=
  if n < 0 then .unknown else all.getD n.toNat .unknown

end StatusCode

structure Status where
  code : StatusCode
  message : String
  details : Bytes := []
deriving DecidableEq

namespace Status

/-- What arrives of a status over a connection. Its message travels in a header, which is read
with its percent signs resolved; a message that is no text then takes the place of the code. -/
def delivered (s : Status) : Status :=
  match Bytes.text (Percent.decode (Bytes.ofString s.message)) with
  | .ok message => { s with message }
  | .error e =>
    { s with
      code := .unknown
      message := "Error deserializing status message header: " ++ e.message }

/-- The details, empty if they cannot be read. -/
def reading (s : Status) : Wire.ErrorDetails :=
  match Wire.ErrorDetails.layout.decode s.details with
  | .ok d => d
  | .error _ => {}

/-- The message with the name of what it is about. -/
def text (s : Status) : String :=
  let name := s.reading.resourceName
  if name = "" then s.message else s.message ++ " (" ++ name ++ ")"

def kindOf (code : StatusCode) (details : Wire.ErrorDetails) : ErrorKind :=
  match code with
  | .notFound =>
    if details.resourceType = "path" then .pathNotFound
    else if details.resourceType = "bucket" then .bucketNotFound
    else .documentNotFound
  | .alreadyExists =>
    if details.resourceType = "path" then .pathExists
    else if details.resourceType = "bucket" then .bucketExists
    else .documentExists
  | .aborted => if details.reason = "CAS_MISMATCH" then .casMismatch else .aborted
  | .failedPrecondition =>
    if details.reason = "CAS_MISMATCH" then .casMismatch
    else if details.reason = "LOCKED" then .documentLocked
    else if details.reason = "PATH_MISMATCH" then .pathMismatch
    else .failedPrecondition
  | .invalidArgument => .invalidArgument
  | .unavailable => .unavailable
  | .deadlineExceeded => .timeout
  | .cancelled => .cancelled
  | .internal | .dataLoss => .internal
  | .resourceExhausted => .resourceExhausted
  | .unimplemented => .unimplemented
  | .permissionDenied | .unauthenticated => .permissionDenied
  | .success | .unknown | .outOfRange => .unknown

def kind (s : Status) : ErrorKind := kindOf s.code s.reading

end Status
end DocumentClient
