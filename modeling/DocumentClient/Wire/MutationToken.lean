import DocumentClient.Wire.Layout

/-!
# Mutation tokens on the wire

The place of a mutation in the log of a partition of a bucket.
-/

namespace DocumentClient.Wire

structure MutationToken where
  bucket : String := ""
  partition : UInt32 := 0
  uuid : UInt64 := 0
  seqno : UInt64 := 0
deriving DecidableEq

def MutationToken.layout : Layout MutationToken where
  name := some "MutationToken"
  empty := {}
  fields :=
    [.single "bucket_name" 1 .text (·.bucket) (fun t m => { m with bucket := t }),
      .single "vbucket_id" 2 .uint32 (·.partition) (fun n m => { m with partition := n }),
      .single "vbucket_uuid" 3 .uint64 (·.uuid) (fun n m => { m with uuid := n }),
      .single "seq_no" 4 .uint64 (·.seqno) (fun n m => { m with seqno := n })]

end DocumentClient.Wire
