import DocumentClient.Wire.MutationToken

/-!
# Mutation tokens

The place of a mutation in the log of one partition of a bucket. Partitions are numbered with
16 bits; a server that names a larger one is not understood.
-/

namespace DocumentClient

structure MutationToken where
  bucket : String
  partition : UInt16
  uuid : UInt64
  seqno : UInt64
deriving DecidableEq

namespace MutationToken

def toWire (t : MutationToken) : Wire.MutationToken :=
  ⟨t.bucket, t.partition.toUInt32, t.uuid, t.seqno⟩

def ofWire? (t : Wire.MutationToken) : Option MutationToken :=
  if t.partition.toNat < UInt16.size then some ⟨t.bucket, t.partition.toUInt16, t.uuid, t.seqno⟩
  else none

end MutationToken
end DocumentClient
