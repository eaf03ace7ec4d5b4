/-!
# Kinds of failure

What a caller can tell apart without reading a message. Each kind has a stable code, opens its
messages with its own words, and is worth a retry or not.
-/

namespace DocumentClient

inductive ErrorKind where
  | invalidArgument
  | documentNotFound
  | documentExists
  | documentLocked
  | casMismatch
  | pathNotFound
  | pathExists
  | pathMismatch
  | bucketNotFound
  | bucketExists
  | alreadyQueried
  | valueFormat
  | failedPrecondition
  | aborted
  | connection
  | unavailable
  | timeout
  | cancelled
  | internal
  | resourceExhausted
  | unimplemented
  | permissionDenied
  | unknown
deriving DecidableEq

namespace ErrorKind

def code : ErrorKind → String
  | .invalidArgument => "INVALID_ARGUMENT"
  | .documentNotFound => "DOCUMENT_NOT_FOUND"
  | .documentExists => "DOCUMENT_EXISTS"
  | .documentLocked => "DOCUMENT_LOCKED"
  | .casMismatch => "CAS_MISMATCH"
  | .pathNotFound => "PATH_NOT_FOUND"
  | .pathExists => "PATH_EXISTS"
  | .pathMismatch => "PATH_MISMATCH"
  | .bucketNotFound => "BUCKET_NOT_FOUND"
  | .bucketExists => "BUCKET_EXISTS"
  | .alreadyQueried => "ALREADY_QUERIED"
  | .valueFormat => "VALUE_FORMAT"
  | .failedPrecondition => "FAILED_PRECONDITION"
  | .aborted => "ABORTED"
  | .connection => "CONNECTION_ERROR"
  | .unavailable => "UNAVAILABLE"
  | .timeout => "TIMEOUT"
  | .cancelled => "CANCELLED"
  | .internal => "INTERNAL_ERROR"
  | .resourceExhausted => "RESOURCE_EXHAUSTED"
  | .unimplemented => "UNIMPLEMENTED"
  | .permissionDenied => "PERMISSION_DENIED"
  | .unknown => "UNKNOWN"

/-- The words before the details of a message. -/
def heading : ErrorKind → String
  | .invalidArgument => "Invalid argument"
  | .documentNotFound => "Document not found"
  | .documentExists => "Document exists"
  | .documentLocked => "Document locked"
  | .casMismatch => "CAS mismatch"
  | .pathNotFound => "Path not found"
  | .pathExists => "Path exists"
  | .pathMismatch => "Path mismatch"
  | .bucketNotFound => "Bucket not found"
  | .bucketExists => "Bucket exists"
  | .alreadyQueried => "Query has already been executed"
  | .valueFormat => "Value format error"
  | .failedPrecondition => "Condition check failed"
  | .aborted => "Operation aborted"
  | .connection => "Connection error"
  | .unavailable => "Server unavailable"
  | .timeout => "Request timeout"
  | .cancelled => "Request cancelled"
  | .internal => "Internal server error"
  | .resourceExhausted => "Resource exhausted"
  | .unimplemented => "Unimplemented"
  | .permissionDenied => "Permission denied"
  | .unknown => "Unknown error"

/-- Whether the same call may succeed later. -/
def retryable : ErrorKind → Bool
  | .documentLocked | .unavailable | .resourceExhausted | .timeout => true
  | _ => false

end ErrorKind
end DocumentClient
