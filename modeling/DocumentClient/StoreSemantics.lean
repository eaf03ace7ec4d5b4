import DocumentClient.Text.Label

/-!
# How a mutation of paths treats the document as a whole

The document must exist, is created if it is missing, or must not exist.
-/

namespace DocumentClient

inductive StoreSemantics where
  | replace
  | upsert
  | insert
deriving DecidableEq

namespace StoreSemantics

def toWire : StoreSemantics → Int32
  | .replace => 0
  | .upsert => 1
  | .insert => 2

/-- The semantics under a label; for an unknown one the label in lower case. -/
def ofLabel (label : String) : Except String StoreSemantics :=
  let label := Text.lowerLabel label
  if label = "replace" then .ok .replace
  else if label = "upsert" then .ok .upsert
  else if label = "insert" then .ok .insert
  else .error label

def text : StoreSemantics → String
  | .replace => "Replace"
  | .upsert => "Upsert"
  | .insert => "Insert"

end StoreSemantics
end DocumentClient
