import DocumentClient.Duration
import DocumentClient.Durability
import DocumentClient.StoreSemantics
import DocumentClient.Text.Quoted

/-!
# Loosely typed option values

An option given by name carries a value of one of these kinds. Which kind an option takes is
decided when it is resolved.
-/

namespace DocumentClient

inductive OptionValue where
  | bool (b : Bool)
  | int (n : Int64)
  | uint (n : UInt64)
  | duration (d : Duration)
  | text (s : String)
  | texts (xs : List String)
  | durability (d : Durability)
  | semantics (s : StoreSemantics)
deriving DecidableEq

/-- An option value as messages show it. -/
def OptionValue.display : OptionValue → String
  | .bool true => "Bool(true)"
  | .bool false => "Bool(false)"
  | .int n => "Int(" ++ Decimal.intText n.toInt ++ ")"
  | .uint n => "UInt(" ++ Decimal.text n.toNat ++ ")"
  | .duration d => "Duration(" ++ d.text ++ ")"
  | .text s => "Str(" ++ Text.quoted s ++ ")"
  | .texts xs => "StrList(" ++ Text.quotedList xs ++ ")"
  | .durability d => "Durability(" ++ d.text ++ ")"
  | .semantics s => "StoreSemantics(" ++ s.text ++ ")"

end DocumentClient
