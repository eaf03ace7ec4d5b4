import DocumentClient.Wire.Layout

/-!
# The durability of a mutation on the wire

A level by its number or the counts of the older observation, never both: what is read later
takes the place of the other one.
-/

namespace DocumentClient.Wire

structure LegacyDurability where
  replicated : UInt32 := 0
  persisted : UInt32 := 0
deriving DecidableEq

def LegacyDurability.layout : Layout LegacyDurability where
  name := some "LegacyDurabilitySpec"
  empty := {}
  fields :=
    [.single "num_replicated" 1 .uint32 (·.replicated) (fun n m => { m with replicated := n }),
      .single "num_persisted" 2 .uint32 (·.persisted) (fun n m => { m with persisted := n })]

inductive DurabilitySpec where
  | level (n : Int32)
  | legacy (spec : LegacyDurability)
deriving DecidableEq

namespace DurabilitySpec

def level? : DurabilitySpec → Option Int32
  | .level n => some n
  | .legacy _ => none

def legacy? : DurabilitySpec → Option LegacyDurability
  | .level _ => none
  | .legacy spec => some spec

/-- The two fields of a message that carries a durability. -/
def fields {M : Type} (get : M → Option DurabilitySpec)
    (set : Option DurabilitySpec → M → M) : List (Field M) :=
  [.message "durability_spec" 20 LegacyDurability.layout
      (fun m => (get m).bind legacy?) (fun spec => set (spec.map .legacy)),
    .optional "durability_spec" 21 .int32
      (fun m => (get m).bind level?) (fun n => set (n.map .level))]

end DurabilitySpec
end DocumentClient.Wire
