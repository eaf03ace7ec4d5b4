import DocumentClient.MutationToken

/-!
# Mutation states

The latest known mutation of each partition of each bucket, ordered by the octets of the
bucket's name and then by partition. Of two tokens for one partition the one with the larger
sequence number stays, and of two equal ones the first.
-/

namespace DocumentClient

structure MutationState where
  tokens : List MutationToken := []
deriving DecidableEq

namespace MutationState

/-- Whether a token stands before another one: a smaller bucket name, or the same one and a
smaller partition. -/
def Precedes (a b : MutationToken) : Prop :=
  a.bucket < b.bucket ∨ (a.bucket = b.bucket ∧ a.partition < b.partition)

instance (a b : MutationToken) : Decidable (Precedes a b) :=
  inferInstanceAs (Decidable (_ ∨ _))

def SamePlace (a b : MutationToken) : Prop :=
  a.bucket = b.bucket ∧ a.partition = b.partition

instance (a b : MutationToken) : Decidable (SamePlace a b) :=
  inferInstanceAs (Decidable (_ ∧ _))

def addTo (t : MutationToken) : List MutationToken → List MutationToken
  | [] => [t]
  | u :: rest =>
    if SamePlace t u then (if u.seqno < t.seqno then t else u) :: rest
    else if Precedes t u then t :: u :: rest
    else u :: addTo t rest

/-- Takes note of a token. -/
def add (state : MutationState) (t : MutationToken) : MutationState := ⟨addTo t state.tokens⟩

/-- Takes note of the token of a result, if it carries one. -/
def addToken? (state : MutationState) : Option MutationToken → MutationState
  | none => state
  | some t => state.add t

def addAll (state : MutationState) (ts : List MutationToken) : MutationState := ts.foldl add state

def ofList (ts : List MutationToken) : MutationState := addAll {} ts

def size (state : MutationState) : Nat := state.tokens.length

def isEmpty (state : MutationState) : Bool := state.tokens.isEmpty

def toWire (state : MutationState) : List Wire.MutationToken := state.tokens.map (·.toWire)

/-- The token of a partition, if one is known. -/
def find? (state : MutationState) (bucket : String) (partition : UInt16) :
    Option MutationToken :=
  state.tokens.find? fun t => t.bucket = bucket ∧ t.partition = partition

end MutationState
end DocumentClient
