import DocumentClient.Decimal
import DocumentClient.Wire.Document

/-!
# Keyspaces and keys

A document lies in a collection of a scope of a bucket, under a key of 1 to 250 octets.
-/

namespace DocumentClient

structure Keyspace where
  bucket : String
  scope : String
  collection : String
deriving DecidableEq

def defaultScope : String := "_default"
def defaultCollection : String := "_default"

/-- The longest key in octets. -/
def maxKeyLength : Nat := 250

/-- Why a key is refused. -/
inductive KeyRefusal where
  | empty
  | long (length : Nat)
deriving DecidableEq

def KeyRefusal.message : KeyRefusal → String
  | .empty => "key must not be empty"
  | .long n =>
    "key is " ++ Decimal.text n ++ " bytes, maximum is " ++ Decimal.text maxKeyLength

def checkKey (key : String) : Except KeyRefusal Unit :=
  if key = "" then .error .empty
  else if maxKeyLength < key.utf8ByteSize then .error (.long key.utf8ByteSize)
  else .ok ()

/-- The place of a key on the wire. -/
def Keyspace.target (k : Keyspace) (key : String) : Wire.Target :=
  ⟨k.bucket, k.scope, k.collection, key⟩

/-- The three names with points between them. -/
def Keyspace.text (k : Keyspace) : String := k.bucket ++ "." ++ k.scope ++ "." ++ k.collection

end DocumentClient
