import DocumentClient.Document

/-!
# Serializers and transcoders

A serializer turns JSON values into octets and back. A transcoder does so for document content
and says of which type the octets are. Callers may bring their own; each has a name by which it
is shown. Of the two transcoders here one stores JSON values only, the other octets only.
-/

namespace DocumentClient

structure Serializer where
  name : String
  write : Json.Value → Except ContentFault Bytes
  read : Bytes → Except ContentFault Json.Value

/-- Compact JSON text. -/
def Serializer.plain : Serializer where
  name := "DefaultJsonSerializer"
  write v := .ok v.print
  read octets :=
    match Json.parse octets with
    | .ok v => .ok v
    | .error fault => .error (.json fault)

structure Transcoder where
  name : String
  encode : Document → Except ContentFault (Bytes × ContentType)
  decode : Bytes → ContentType → Except ContentFault Document

namespace Transcoder

def json (serializer : Serializer) : Transcoder where
  name := "JsonTranscoder \x7b serializer: " ++ serializer.name ++ " \x7d"
  encode
    | .json v =>
      match serializer.write v with
      | .ok octets => .ok (octets, .json)
      | .error fault => .error fault
    | .binary _ => .error .storesJsonOnly
  decode
    | octets, .json =>
      match serializer.read octets with
      | .ok v => .ok (.json v)
      | .error fault => .error fault
    | _, .binary => .error .readsJsonOnly
    | _, .unknown => .error .unknownType

def binary : Transcoder where
  name := "RawBinaryTranscoder"
  encode
    | .binary octets => .ok (octets, .binary)
    | .json _ => .error .storesBinaryOnly
  decode
    | octets, .binary => .ok (.binary octets)
    | _, .json => .error .readsBinaryOnly
    | _, .unknown => .error .unknownType

end Transcoder
end DocumentClient
