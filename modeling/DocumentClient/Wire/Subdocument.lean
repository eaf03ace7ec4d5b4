import DocumentClient.Wire.Document
import DocumentClient.Wire.Status

/-!
# Messages about parts of a document

A request carries one spec for each path. The answer has one entry for each spec, in the same
order.
-/

namespace DocumentClient.Wire

structure LookupSpecFlags where
  xattr : Option Bool := none
deriving DecidableEq

def LookupSpecFlags.layout : Layout LookupSpecFlags where
  name := some "Flags"
  empty := {}
  fields := [.optional "xattr" 1 .bool (·.xattr) (fun b m => { m with xattr := b })]

structure LookupSpec where
  operation : Int32 := 0
  path : String := ""
  flags : Option LookupSpecFlags := none
deriving DecidableEq

def LookupSpec.layout : Layout LookupSpec where
  name := some "Spec"
  empty := {}
  fields :=
    [.single "operation" 1 .int32 (·.operation) (fun n m => { m with operation := n }),
      .single "path" 2 .text (·.path) (fun t m => { m with path := t }),
      .message "flags" 3 LookupSpecFlags.layout (·.flags) (fun f m => { m with flags := f })]

structure LookupFlags where
  accessDeleted : Option Bool := none
deriving DecidableEq

def LookupFlags.layout : Layout LookupFlags where
  name := some "Flags"
  empty := {}
  fields :=
    [.optional "access_deleted" 1 .bool (·.accessDeleted)
      (fun b m => { m with accessDeleted := b })]

structure LookupInRequest where
  target : Target := {}
  specs : List LookupSpec := []
  flags : Option LookupFlags := none
deriving DecidableEq

def LookupInRequest.layout : Layout LookupInRequest where
  name := some "LookupInRequest"
  empty := {}
  fields := Target.fields (·.target) (fun t m => { m with target := t }) ++
    [.messages "specs" 5 LookupSpec.layout (·.specs) (fun xs m => { m with specs := xs }),
      .message "flags" 6 LookupFlags.layout (·.flags) (fun f m => { m with flags := f })]

/-- The outcome of one path: a status, absent on success, and JSON text. -/
structure LookupEntry where
  status : Option SpecStatus := none
  content : Bytes := []
deriving DecidableEq

def LookupEntry.layout : Layout LookupEntry where
  name := some "Spec"
  empty := {}
  fields :=
    [.message "status" 1 SpecStatus.layout (·.status) (fun s m => { m with status := s }),
      .single "content" 2 .bytes (·.content) (fun b m => { m with content := b })]

structure LookupInResponse where
  specs : List LookupEntry := []
  cas : UInt64 := 0
deriving DecidableEq

def LookupInResponse.layout : Layout LookupInResponse where
  name := some "LookupInResponse"
  empty := {}
  fields :=
    [.messages "specs" 1 LookupEntry.layout (·.specs) (fun xs m => { m with specs := xs }),
      .single "cas" 2 .uint64 (·.cas) (fun n m => { m with cas := n })]

structure MutateSpecFlags where
  createPath : Option Bool := none
  xattr : Option Bool := none
deriving DecidableEq

def MutateSpecFlags.layout : Layout MutateSpecFlags where
  name := some "Flags"
  empty := {}
  fields :=
    [.optional "create_path" 1 .bool (·.createPath) (fun b m => { m with createPath := b }),
      .optional "xattr" 2 .bool (·.xattr) (fun b m => { m with xattr := b })]

structure MutateSpec where
  operation : Int32 := 0
  path : String := ""
  content : Bytes := []
  flags : Option MutateSpecFlags := none
deriving DecidableEq

def MutateSpec.layout : Layout MutateSpec where
  name := some "Spec"
  empty := {}
  fields :=
    [.single "operation" 1 .int32 (·.operation) (fun n m => { m with operation := n }),
      .single "path" 2 .text (·.path) (fun t m => { m with path := t }),
      .single "content" 3 .bytes (·.content) (fun b m => { m with content := b }),
      .message "flags" 4 MutateSpecFlags.layout (·.flags) (fun f m => { m with flags := f })]

structure MutateInRequest where
  target : Target := {}
  specs : List MutateSpec := []
  storeSemantic : Option Int32 := none
  cas : Option UInt64 := none
  accessDeleted : Option Bool := none
  expirySecs : Option UInt32 := none
  preserveExpiry : Option Bool := none
  durability : Option DurabilitySpec := none
deriving DecidableEq

def MutateInRequest.layout : Layout MutateInRequest where
  name := some "MutateInRequest"
  empty := {}
  fields := Target.fields (·.target) (fun t m => { m with target := t }) ++
    [.messages "specs" 5 MutateSpec.layout (·.specs) (fun xs m => { m with specs := xs }),
      .optional "store_semantic" 6 .int32 (·.storeSemantic)
        (fun n m => { m with storeSemantic := n }),
      .optional "cas" 7 .uint64 (·.cas) (fun n m => { m with cas := n }),
      .optional "access_deleted" 8 .bool (·.accessDeleted)
        (fun b m => { m with accessDeleted := b }),
      .optional "expiry_secs" 9 .uint32 (·.expirySecs) (fun n m => { m with expirySecs := n }),
      .optional "preserve_expiry" 10 .bool (·.preserveExpiry)
        (fun b m => { m with preserveExpiry := b })] ++
    DurabilitySpec.fields (·.durability) (fun d m => { m with durability := d })

/-- The outcome of one path: JSON text if the operation gives a value back. -/
structure MutateEntry where
  content : Option Bytes := none
deriving DecidableEq

def MutateEntry.layout : Layout MutateEntry where
  name := some "Spec"
  empty := {}
  fields := [.optional "content" 1 .bytes (·.content) (fun b m => { m with content := b })]

structure MutateInResponse where
  specs : List MutateEntry := []
  cas : UInt64 := 0
  token : Option MutationToken := none
deriving DecidableEq

def MutateInResponse.layout : Layout MutateInResponse where
  name := some "MutateInResponse"
  empty := {}
  fields :=
    [.messages "specs" 1 MutateEntry.layout (·.specs) (fun xs m => { m with specs := xs }),
      .single "cas" 2 .uint64 (·.cas) (fun n m => { m with cas := n }),
      .message "mutation_token" 3 MutationToken.layout (·.token) (fun t m => { m with token := t })]

end DocumentClient.Wire
