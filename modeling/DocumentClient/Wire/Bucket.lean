import DocumentClient.Wire.Layout

/-!
# Messages about buckets

Settings carry their enumerated values as numbers.
-/

namespace DocumentClient.Wire

structure BucketSettings where
  name : String := ""
  bucketType : Int32 := 0
  ramQuotaMb : UInt64 := 0
  replicas : Option UInt32 := none
  flush : Option Bool := none
  replicaIndexes : Option Bool := none
  eviction : Option Int32 := none
  maxExpirySecs : Option UInt32 := none
  compression : Option Int32 := none
  durability : Option Int32 := none
  backend : Option Int32 := none
  conflict : Option Int32 := none
deriving DecidableEq

def BucketSettings.layout : Layout BucketSettings where
  name := some "BucketSettings"
  empty := {}
  fields :=
    [.single "bucket_name" 1 .text (·.name) (fun t m => { m with name := t }),
      .single "bucket_type" 2 .int32 (·.bucketType) (fun n m => { m with bucketType := n }),
      .single "ram_quota_mb" 3 .uint64 (·.ramQuotaMb) (fun n m => { m with ramQuotaMb := n }),
      .optional "num_replicas" 4 .uint32 (·.replicas) (fun n m => { m with replicas := n }),
      .optional "flush_enabled" 5 .bool (·.flush) (fun b m => { m with flush := b }),
      .optional "replica_indexes" 6 .bool (·.replicaIndexes)
        (fun b m => { m with replicaIndexes := b }),
      .optional "eviction_mode" 7 .int32 (·.eviction) (fun n m => { m with eviction := n }),
      .optional "max_expiry_secs" 8 .uint32 (·.maxExpirySecs)
        (fun n m => { m with maxExpirySecs := n }),
      .optional "compression_mode" 9 .int32 (·.compression)
        (fun n m => { m with compression := n }),
      .optional "minimum_durability_level" 10 .int32 (·.durability)
        (fun n m => { m with durability := n }),
      .optional "storage_backend" 11 .int32 (·.backend) (fun n m => { m with backend := n }),
      .optional "conflict_resolution_type" 12 .int32 (·.conflict)
        (fun n m => { m with conflict := n })]

/-- A request to create or update a bucket. -/
structure BucketRequest where
  settings : Option BucketSettings := none
deriving DecidableEq

/-- The layout of the two requests, which differ in their name only. -/
def BucketRequest.layout (name : String) : Layout BucketRequest where
  name := some name
  empty := {}
  fields :=
    [.message "settings" 1 BucketSettings.layout (·.settings) (fun s m => { m with settings := s })]

structure DeleteBucketRequest where
  name : String := ""
deriving DecidableEq

def DeleteBucketRequest.layout : Layout DeleteBucketRequest where
  name := some "DeleteBucketRequest"
  empty := {}
  fields := [.single "bucket_name" 1 .text (·.name) (fun t m => { m with name := t })]

/-- A message without fields. -/
structure EmptyMessage where
deriving DecidableEq

def EmptyMessage.layout (name : String) : Layout EmptyMessage where
  name := some name
  empty := {}
  fields := []

structure ListBucketsResponse where
  buckets : List BucketSettings := []
deriving DecidableEq

def ListBucketsResponse.layout : Layout ListBucketsResponse where
  name := some "ListBucketsResponse"
  empty := {}
  fields :=
    [.messages "buckets" 1 BucketSettings.layout (·.buckets) (fun xs m => { m with buckets := xs })]

end DocumentClient.Wire
