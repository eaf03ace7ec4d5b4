import DocumentClient.ErrorKind
import DocumentClient.Json.Shape

/-!
# Document content

What a caller stores and gets back: a JSON value or opaque octets. The type of stored content
travels beside its octets.
-/

namespace DocumentClient

inductive Document where
  | json (value : Json.Value)
  | binary (octets : Bytes)
deriving DecidableEq

inductive ContentType where
  | json
  | binary
  | unknown
deriving DecidableEq

namespace ContentType

def toWire : ContentType → Int32
  | .unknown => 0
  | .json => 1
  | .binary => 2

/-- The type with a number; any other number is unknown. -/
def ofWire (n : Int32) : ContentType :=
  if n = 1 then .json else if n = 2 then .binary else .unknown

end ContentType

/-- Why content cannot be stored or read. A caller's own serializer or transcoder may fail in
any way. -/
inductive ContentFault where
  | json (fault : Json.Fault)
  | storesJsonOnly
  | readsJsonOnly
  | storesBinaryOnly
  | readsBinaryOnly
  | unknownType
  | unrepresentable (reason : Json.Reason)
  | custom (kind : ErrorKind) (message : String)
deriving DecidableEq

def ContentFault.kind : ContentFault → ErrorKind
  | .custom kind _ => kind
  | _ => .valueFormat

def ContentFault.message : ContentFault → String
  | .json fault => fault.message
  | .storesJsonOnly => "binary content is not supported by the JSON transcoder"
  | .readsJsonOnly => "binary content cannot be decoded by the JSON transcoder"
  | .storesBinaryOnly => "only binary content is supported by the raw binary transcoder"
  | .readsBinaryOnly => "JSON content cannot be decoded by the raw binary transcoder"
  | .unknownType => "unrecognized content type"
  | .unrepresentable reason => "unrecognized value type: " ++ reason.message
  | .custom _ message => message

/-- Reads a value as a shape. -/
def readValue (shape : Json.Shape) (v : Json.Value) : Except ContentFault Json.Value :=
  match shape.ofValue v with
  | .ok v => .ok v
  | .error reason => .error (.json ⟨reason, none⟩)

/-- Reads JSON text as a shape. -/
def readText (shape : Json.Shape) (text : Bytes) : Except ContentFault Json.Value :=
  match shape.ofText text with
  | .ok v => .ok v
  | .error fault => .error (.json fault)

/-- Reads content as a shape; octets are taken for JSON text. -/
def Document.read (shape : Json.Shape) : Document → Except ContentFault Json.Value
  | .json v => readValue shape v
  | .binary octets => readText shape octets

end DocumentClient
