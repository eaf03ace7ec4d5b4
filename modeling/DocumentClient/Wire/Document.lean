import DocumentClient.Wire.Durability
import DocumentClient.Wire.MutationToken

/-!
# Messages about whole documents

A request names its document by a target. Content is octets with the number of their format
and flags for other clients.
-/

namespace DocumentClient.Wire

/-- The place of a document. -/
structure Target where
  bucket : String := ""
  scope : String := ""
  collection : String := ""
  key : String := ""
deriving DecidableEq

/-- The first four fields of a request about a document. -/
def Target.fields {M : Type} (get : M → Target) (set : Target → M → M) : List (Field M) :=
  [.single "bucket_name" 1 .text (fun m => (get m).bucket)
      (fun t m => set { get m with bucket := t } m),
    .single "scope_name" 2 .text (fun m => (get m).scope)
      (fun t m => set { get m with scope := t } m),
    .single "collection_name" 3 .text (fun m => (get m).collection)
      (fun t m => set { get m with collection := t } m),
    .single "key" 4 .text (fun m => (get m).key)
      (fun t m => set { get m with key := t } m)]

structure Content where
  octets : Bytes := []
  format : Int32 := 0
  flags : UInt32 := 0
deriving DecidableEq

/-- The fields of content, the octets in the field `first`. -/
def Content.fields {M : Type} (first : Nat) (get : M → Content) (set : Content → M → M) :
    List (Field M) :=
  [.single "content" first .bytes (fun m => (get m).octets)
      (fun b m => set { get m with octets := b } m),
    .single "content_type" (first + 1) .int32 (fun m => (get m).format)
      (fun n m => set { get m with format := n } m),
    .single "content_flags" (first + 2) .uint32 (fun m => (get m).flags)
      (fun n m => set { get m with flags := n } m)]

structure GetRequest where
  target : Target := {}
  project : List String := []
deriving DecidableEq

def GetRequest.layout : Layout GetRequest where
  name := some "GetRequest"
  empty := {}
  fields := Target.fields (·.target) (fun t m => { m with target := t }) ++
    [.repeated "project" 5 .text (·.project) (fun xs m => { m with project := xs })]

/-- The expiry is a time in seconds since the start of 1970. -/
structure GetResponse where
  content : Content := {}
  cas : UInt64 := 0
  expiry : Option Int64 := none
deriving DecidableEq

def GetResponse.layout : Layout GetResponse where
  name := some "GetResponse"
  empty := {}
  fields := Content.fields 1 (·.content) (fun c m => { m with content := c }) ++
    [.single "cas" 4 .uint64 (·.cas) (fun n m => { m with cas := n }),
      .optional "expiry_time_secs" 5 .int64 (·.expiry) (fun n m => { m with expiry := n })]

structure ExistsRequest where
  target : Target := {}
deriving DecidableEq

def ExistsRequest.layout : Layout ExistsRequest where
  name := some "ExistsRequest"
  empty := {}
  fields := Target.fields (·.target) (fun t m => { m with target := t })

structure ExistsResponse where
  result : Bool := false
  cas : UInt64 := 0
deriving DecidableEq

def ExistsResponse.layout : Layout ExistsResponse where
  name := some "ExistsResponse"
  empty := {}
  fields :=
    [.single "result" 1 .bool (·.result) (fun b m => { m with result := b }),
      .single "cas" 2 .uint64 (·.cas) (fun n m => { m with cas := n })]

structure InsertRequest where
  target : Target := {}
  content : Content := {}
  expirySecs : Option UInt32 := none
  durability : Option DurabilitySpec := none
deriving DecidableEq

def InsertRequest.layout : Layout InsertRequest where
  name := some "InsertRequest"
  empty := {}
  fields := Target.fields (·.target) (fun t m => { m with target := t }) ++
    Content.fields 5 (·.content) (fun c m => { m with content := c }) ++
    [.optional "expiry_secs" 8 .uint32 (·.expirySecs) (fun n m => { m with expirySecs := n })] ++
    DurabilitySpec.fields (·.durability) (fun d m => { m with durability := d })

structure UpsertRequest where
  target : Target := {}
  content : Content := {}
  expirySecs : Option UInt32 := none
  preserveExpiry : Option Bool := none
  durability : Option DurabilitySpec := none
deriving DecidableEq

def UpsertRequest.layout : Layout UpsertRequest where
  name := some "UpsertRequest"
  empty := {}
  fields := Target.fields (·.target) (fun t m => { m with target := t }) ++
    Content.fields 5 (·.content) (fun c m => { m with content := c }) ++
    [.optional "expiry_secs" 8 .uint32 (·.expirySecs) (fun n m => { m with expirySecs := n }),
      .optional "preserve_expiry_on_existing" 9 .bool (·.preserveExpiry)
        (fun b m => { m with preserveExpiry := b })] ++
    DurabilitySpec.fields (·.durability) (fun d m => { m with durability := d })

structure ReplaceRequest where
  target : Target := {}
  content : Content := {}
  expirySecs : Option UInt32 := none
  preserveExpiry : Option Bool := none
  cas : Option UInt64 := none
  durability : Option DurabilitySpec := none
deriving DecidableEq

def ReplaceRequest.layout : Layout ReplaceRequest where
  name := some "ReplaceRequest"
  empty := {}
  fields := Target.fields (·.target) (fun t m => { m with target := t }) ++
    Content.fields 5 (·.content) (fun c m => { m with content := c }) ++
    [.optional "expiry_secs" 8 .uint32 (·.expirySecs) (fun n m => { m with expirySecs := n }),
      .optional "preserve_expiry" 9 .bool (·.preserveExpiry)
        (fun b m => { m with preserveExpiry := b }),
      .optional "cas" 10 .uint64 (·.cas) (fun n m => { m with cas := n })] ++
    DurabilitySpec.fields (·.durability) (fun d m => { m with durability := d })

structure RemoveRequest where
  target : Target := {}
  cas : Option UInt64 := none
  durability : Option DurabilitySpec := none
deriving DecidableEq

def RemoveRequest.layout : Layout RemoveRequest where
  name := some "RemoveRequest"
  empty := {}
  fields := Target.fields (·.target) (fun t m => { m with target := t }) ++
    [.optional "cas" 5 .uint64 (·.cas) (fun n m => { m with cas := n })] ++
    DurabilitySpec.fields (·.durability) (fun d m => { m with durability := d })

/-- The answer to each of the four mutations. -/
structure MutationResponse where
  cas : UInt64 := 0
  token : Option MutationToken := none
deriving DecidableEq

/-- The layout of the four answers, which differ in their name only. -/
def MutationResponse.layout (name : String) : Layout MutationResponse where
  name := some name
  empty := {}
  fields :=
    [.single "cas" 1 .uint64 (·.cas) (fun n m => { m with cas := n }),
      .message "mutation_token" 2 MutationToken.layout (·.token) (fun t m => { m with token := t })]

end DocumentClient.Wire
