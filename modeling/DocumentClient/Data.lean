import DocumentClient.Document

/-!
# Values of a caller's own types

Application data described part by part, and its form as a JSON document. An absent value, a
unit and a number that is not finite become null, octets a list of numbers. The keys of a map
become texts: a text stands for itself, an integer and a boolean for their usual text, a present
optional key for what it holds; any other key is refused.
-/

namespace DocumentClient

inductive Data where
  | json (value : Json.Value)
  | unit
  | bool (b : Bool)
  | integer (n : Int)
  | notFinite
  | text (s : String)
  | octets (b : Bytes)
  | absent
  | present (d : Data)
  | sequence (items : List Data)
  | map (entries : List (Data × Data))

namespace Data

def keyText : Data → Except Json.Reason String
  | .json (.text s) => .ok s
  | .text s => .ok s
  | .bool true => .ok "true"
  | .bool false => .ok "false"
  | .integer n => .ok (Decimal.intText n)
  | .present d => keyText d
  | _ => .error .keyNotText

mutual

def toJson : Data → Except Json.Reason Json.Value
  | .json v => .ok v
  | .unit | .notFinite | .absent => .ok .null
  | .bool b => .ok (.bool b)
  | .integer n =>
    if -0x8000000000000000 ≤ n ∧ n < UInt64.size then .ok (.number (.whole n))
    else .error .numberOutOfRange
  | .text s => .ok (.text s)
  | .octets b => .ok (.array (b.map fun x => .number (.whole x.toNat)))
  | .present d => toJson d
  | .sequence items =>
    match itemsToJson items with
    | .ok vs => .ok (.array vs)
    | .error e => .error e
  | .map entries =>
    match entriesToJson entries with
    | .ok ms => .ok (.object (Keyed.ofList ms))
    | .error e => .error e

def itemsToJson : List Data → Except Json.Reason (List Json.Value)
  | [] => .ok []
  | d :: rest =>
    match toJson d with
    | .error e => .error e
    | .ok v =>
      match itemsToJson rest with
      | .error e => .error e
      | .ok vs => .ok (v :: vs)

def entriesToJson : List (Data × Data) → Except Json.Reason (List (String × Json.Value))
  | [] => .ok []
  | (k, d) :: rest =>
    match keyText k with
    | .error e => .error e
    | .ok key =>
      match toJson d with
      | .error e => .error e
      | .ok v =>
        match entriesToJson rest with
        | .error e => .error e
        | .ok ms => .ok ((key, v) :: ms)

end

end Data

/-- The document that a caller's value becomes. -/
def Document.ofData (d : Data) : Except ContentFault Document :=
  match d.toJson with
  | .ok v => .ok (.json v)
  | .error reason => .error (.unrepresentable reason)

end DocumentClient
