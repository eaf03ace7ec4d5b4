import DocumentClient.Decimal
import DocumentClient.Text.Label

/-!
# Durability of mutations

A mutation asks the server for a synchronous level, or the client for the older observation of
replicas and disks, or for nothing. A level of `none` and an observation of no node ask for
nothing and are not sent.
-/

namespace DocumentClient

inductive DurabilityLevel where
  | none
  | majority
  | majorityAndPersistToActive
  | persistToMajority
deriving DecidableEq

inductive ReplicateTo where
  | none | one | two | three
deriving DecidableEq

inductive PersistTo where
  | none | active | one | two | three | four
deriving DecidableEq

inductive Durability where
  | level (level : DurabilityLevel)
  | legacy (replicate : ReplicateTo) (persist : PersistTo)
deriving DecidableEq

/-- Why a durability is refused. -/
inductive DurabilityRefusal where
  | unknownLabel (label : String)
  | unknownNumber (n : Int32)
  | conflict
deriving DecidableEq

def DurabilityRefusal.message : DurabilityRefusal → String
  | .unknownLabel label => "unknown durability level '" ++ label ++ "'"
  | .unknownNumber n => "unknown durability level " ++ Decimal.intText n.toInt
  | .conflict => "durability level and legacy durability cannot both be set"

namespace DurabilityLevel

/-- The number of a level on the wire; `none` is not sent. -/
def toWire : DurabilityLevel → Option Int32
  | .none => Option.none
  | .majority => some 0
  | .majorityAndPersistToActive => some 1
  | .persistToMajority => some 2

def ofWire (n : Int32) : Except DurabilityRefusal DurabilityLevel :=
  if n = 0 then .ok .majority
  else if n = 1 then .ok .majorityAndPersistToActive
  else if n = 2 then .ok .persistToMajority
  else .error (.unknownNumber n)

def ofLabel (label : String) : Except DurabilityRefusal DurabilityLevel :=
  let label := Text.dashedLabel label
  if label = "none" then .ok .none
  else if label = "majority" then .ok .majority
  else if label = "majority_and_persist_to_active" ∨ label = "majorityandpersistactive" then
    .ok .majorityAndPersistToActive
  else if label = "persist_to_majority" ∨ label = "persisttomajority" then
    .ok .persistToMajority
  else .error (.unknownLabel label)

def text : DurabilityLevel → String
  | .none => "None"
  | .majority => "Majority"
  | .majorityAndPersistToActive => "MajorityAndPersistToActive"
  | .persistToMajority => "PersistToMajority"

end DurabilityLevel

namespace ReplicateTo

/-- How many replicas must hold the mutation. -/
def count : ReplicateTo → UInt32
  | .none => 0
  | .one => 1
  | .two => 2
  | .three => 3

def text : ReplicateTo → String
  | .none => "None"
  | .one => "One"
  | .two => "Two"
  | .three => "Three"

end ReplicateTo

namespace PersistTo

/-- How many nodes, the active one included, must have written the mutation to disk. -/
def count : PersistTo → UInt32
  | .none => 0
  | .active | .one => 1
  | .two => 2
  | .three => 3
  | .four => 4

def text : PersistTo → String
  | .none => "None"
  | .active => "Active"
  | .one => "One"
  | .two => "Two"
  | .three => "Three"
  | .four => "Four"

end PersistTo

def Durability.text : Durability → String
  | .level l => "Level(" ++ l.text ++ ")"
  | .legacy r p =>
    "Legacy \x7b replicate_to: " ++ r.text ++ ", persist_to: " ++ p.text ++ " \x7d"

end DocumentClient
