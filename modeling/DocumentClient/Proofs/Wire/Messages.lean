import DocumentClient.Proofs.Wire.Layouts

/-!
# Messages are read back

Every message of the service, written to octets and read again. The entries of a map may be
written in any order. An encoding is one that can be counted in 64 bits, as every run of octets in a
message is. Main statement: `MessageKind.decode_of_encode`.
-/

namespace DocumentClient.Wire

namespace QueryRequest

/-- The entries of the maps stand in the order of their keys, the form in which a map is held. -/
structure Canonical (m : QueryRequest) : Prop where
  named : Keyed.Ordered m.named
  raw : Keyed.Ordered m.raw

/-- The query `m` with the entries of its maps in some order. -/
structure Reorders (w m : QueryRequest) : Prop where
  named : w.named.Perm m.named
  raw : w.raw.Perm m.raw
  others : { w with named := m.named, raw := m.raw } = m

theorem ordered_of_reorders {w m : QueryRequest} (canonical : m.Canonical)
    (same : w.Reorders m) : w.ordered = m := by
  rw [ordered, Keyed.ofList_of_perm canonical.named same.named,
    Keyed.ofList_of_perm canonical.raw same.raw]
  exact same.others

end QueryRequest

/-- The messages of the service. -/
inductive MessageKind where
  | mutationToken
  | legacyDurability
  | errorDetails
  | specStatus
  | getRequest
  | getResponse
  | existsRequest
  | existsResponse
  | insertRequest
  | insertResponse
  | upsertRequest
  | upsertResponse
  | replaceRequest
  | replaceResponse
  | removeRequest
  | removeResponse
  | lookupSpecFlags
  | lookupSpec
  | lookupFlags
  | lookupInRequest
  | lookupEntry
  | lookupInResponse
  | mutateSpecFlags
  | mutateSpec
  | mutateInRequest
  | mutateEntry
  | mutateInResponse
  | tuningOptions
  | queryRequest
  | queryMetrics
  | queryWarning
  | queryMetadata
  | queryResponse
  | bucketSettings
  | createBucketRequest
  | createBucketResponse
  | updateBucketRequest
  | updateBucketResponse
  | deleteBucketRequest
  | deleteBucketResponse
  | listBucketsRequest
  | listBucketsResponse

namespace MessageKind

def Message : MessageKind → Type
  | mutationToken => MutationToken
  | legacyDurability => LegacyDurability
  | errorDetails => ErrorDetails
  | specStatus => SpecStatus
  | getRequest => GetRequest
  | getResponse => GetResponse
  | existsRequest => ExistsRequest
  | existsResponse => ExistsResponse
  | insertRequest => InsertRequest
  | upsertRequest => UpsertRequest
  | replaceRequest => ReplaceRequest
  | removeRequest => RemoveRequest
  | insertResponse | upsertResponse | replaceResponse | removeResponse => MutationResponse
  | lookupSpecFlags => LookupSpecFlags
  | lookupSpec => LookupSpec
  | lookupFlags => LookupFlags
  | lookupInRequest => LookupInRequest
  | lookupEntry => LookupEntry
  | lookupInResponse => LookupInResponse
  | mutateSpecFlags => MutateSpecFlags
  | mutateSpec => MutateSpec
  | mutateInRequest => MutateInRequest
  | mutateEntry => MutateEntry
  | mutateInResponse => MutateInResponse
  | tuningOptions => TuningOptions
  | queryRequest => QueryRequest
  | queryMetrics => QueryMetrics
  | queryWarning => QueryWarning
  | queryMetadata => QueryMetadata
  | queryResponse => QueryResponse
  | bucketSettings => BucketSettings
  | createBucketRequest | updateBucketRequest => BucketRequest
  | deleteBucketRequest => DeleteBucketRequest
  | createBucketResponse | updateBucketResponse | deleteBucketResponse => EmptyMessage
  | listBucketsRequest => EmptyMessage
  | listBucketsResponse => ListBucketsResponse

def layout : (k : MessageKind) → Layout k.Message
  | mutationToken => MutationToken.layout
  | legacyDurability => LegacyDurability.layout
  | errorDetails => ErrorDetails.layout
  | specStatus => SpecStatus.layout
  | getRequest => GetRequest.layout
  | getResponse => GetResponse.layout
  | existsRequest => ExistsRequest.layout
  | existsResponse => ExistsResponse.layout
  | insertRequest => InsertRequest.layout
  | insertResponse => MutationResponse.layout "InsertResponse"
  | upsertRequest => UpsertRequest.layout
  | upsertResponse => MutationResponse.layout "UpsertResponse"
  | replaceRequest => ReplaceRequest.layout
  | replaceResponse => MutationResponse.layout "ReplaceResponse"
  | removeRequest => RemoveRequest.layout
  | removeResponse => MutationResponse.layout "RemoveResponse"
  | lookupSpecFlags => LookupSpecFlags.layout
  | lookupSpec => LookupSpec.layout
  | lookupFlags => LookupFlags.layout
  | lookupInRequest => LookupInRequest.layout
  | lookupEntry => LookupEntry.layout
  | lookupInResponse => LookupInResponse.layout
  | mutateSpecFlags => MutateSpecFlags.layout
  | mutateSpec => MutateSpec.layout
  | mutateInRequest => MutateInRequest.layout
  | mutateEntry => MutateEntry.layout
  | mutateInResponse => MutateInResponse.layout
  | tuningOptions => TuningOptions.layout
  | queryRequest => QueryRequest.layout
  | queryMetrics => QueryMetrics.layout
  | queryWarning => QueryWarning.layout
  | queryMetadata => QueryMetadata.layout
  | queryResponse => QueryResponse.layout
  | bucketSettings => BucketSettings.layout
  | createBucketRequest => BucketRequest.layout "CreateBucketRequest"
  | createBucketResponse => EmptyMessage.layout "CreateBucketResponse"
  | updateBucketRequest => BucketRequest.layout "UpdateBucketRequest"
  | updateBucketResponse => EmptyMessage.layout "UpdateBucketResponse"
  | deleteBucketRequest => DeleteBucketRequest.layout
  | deleteBucketResponse => EmptyMessage.layout "DeleteBucketResponse"
  | listBucketsRequest => EmptyMessage.layout "ListBucketsRequest"
  | listBucketsResponse => ListBucketsResponse.layout

/-- A map is held in one form only, ordered by key. -/
def Canonical : (k : MessageKind) → k.Message → Prop
  | queryRequest => QueryRequest.Canonical
  | _ => fun _ => True

/-- The same message, the entries of a map standing in any order. -/
def Reorders : (k : MessageKind) → k.Message → k.Message → Prop
  | queryRequest => QueryRequest.Reorders
  | _ => Eq

/-- The form in which a message comes back. -/
def restore : (k : MessageKind) → k.Message → k.Message
  | queryRequest => QueryRequest.ordered
  | _ => id

theorem restore_of_reorders {k : MessageKind} {w m : k.Message} (canonical : k.Canonical m)
    (same : k.Reorders w m) : k.restore w = m := by
  cases k
  case queryRequest => exact QueryRequest.ordered_of_reorders canonical same
  all_goals exact same

theorem restores : (k : MessageKind) → k.layout.Restores Layout.maxNesting k.restore
  | mutationToken => MutationToken.restores.mono (by decide)
  | legacyDurability => LegacyDurability.restores.mono (by decide)
  | errorDetails => ErrorDetails.restores.mono (by decide)
  | specStatus => SpecStatus.restores.mono (by decide)
  | getRequest => GetRequest.restores.mono (by decide)
  | getResponse => GetResponse.restores.mono (by decide)
  | existsRequest => ExistsRequest.restores.mono (by decide)
  | existsResponse => ExistsResponse.restores.mono (by decide)
  | insertRequest => InsertRequest.restores.mono (by decide)
  | insertResponse => (MutationResponse.restores _).mono (by decide)
  | upsertRequest => UpsertRequest.restores.mono (by decide)
  | upsertResponse => (MutationResponse.restores _).mono (by decide)
  | replaceRequest => ReplaceRequest.restores.mono (by decide)
  | replaceResponse => (MutationResponse.restores _).mono (by decide)
  | removeRequest => RemoveRequest.restores.mono (by decide)
  | removeResponse => (MutationResponse.restores _).mono (by decide)
  | lookupSpecFlags => LookupSpecFlags.restores.mono (by decide)
  | lookupSpec => LookupSpec.restores.mono (by decide)
  | lookupFlags => LookupFlags.restores.mono (by decide)
  | lookupInRequest => LookupInRequest.restores.mono (by decide)
  | lookupEntry => LookupEntry.restores.mono (by decide)
  | lookupInResponse => LookupInResponse.restores.mono (by decide)
  | mutateSpecFlags => MutateSpecFlags.restores.mono (by decide)
  | mutateSpec => MutateSpec.restores.mono (by decide)
  | mutateInRequest => MutateInRequest.restores.mono (by decide)
  | mutateEntry => MutateEntry.restores.mono (by decide)
  | mutateInResponse => MutateInResponse.restores.mono (by decide)
  | tuningOptions => TuningOptions.restores.mono (by decide)
  | queryRequest => QueryRequest.restores.mono (by decide)
  | queryMetrics => QueryMetrics.restores.mono (by decide)
  | queryWarning => QueryWarning.restores.mono (by decide)
  | queryMetadata => QueryMetadata.restores.mono (by decide)
  | queryResponse => QueryResponse.restores.mono (by decide)
  | bucketSettings => BucketSettings.restores.mono (by decide)
  | createBucketRequest => (BucketRequest.restores _).mono (by decide)
  | createBucketResponse => (EmptyMessage.restores _).mono (by decide)
  | updateBucketRequest => (BucketRequest.restores _).mono (by decide)
  | updateBucketResponse => (EmptyMessage.restores _).mono (by decide)
  | deleteBucketRequest => DeleteBucketRequest.restores.mono (by decide)
  | deleteBucketResponse => (EmptyMessage.restores _).mono (by decide)
  | listBucketsRequest => (EmptyMessage.restores _).mono (by decide)
  | listBucketsResponse => ListBucketsResponse.restores.mono (by decide)

theorem decode_encode_eq_restore {k : MessageKind} {w : k.Message}
    (short : (k.layout.encode w).length < UInt64.size) :
    k.layout.decode (k.layout.encode w) = .ok (k.restore w) := by
  have read := k.restores Layout.maxNesting w [] (Nat.le_refl _) short
  rw [List.append_nil] at read
  rw [Layout.decode, show (0 : Nat) = ([] : Bytes).length from rfl, read]

/-- What a message is written as is read as that message, whatever order the entries of a map
are written in, so no two messages of one kind are written alike. -/
theorem decode_of_encode {k : MessageKind} {m w : k.Message} (canonical : k.Canonical m)
    (same : k.Reorders w m) (short : (k.layout.encode w).length < UInt64.size) :
    k.layout.decode (k.layout.encode w) = .ok m ∧
      ∀ m' w' : k.Message, k.Canonical m' → k.Reorders w' m' →
        k.layout.encode w' = k.layout.encode w → m' = m := by
  have read : ∀ m' w' : k.Message, k.Canonical m' → k.Reorders w' m' →
      k.layout.encode w' = k.layout.encode w → k.layout.decode (k.layout.encode w) = .ok m' := by
    intro m' w' canonical same alike
    rw [← alike, decode_encode_eq_restore (alike ▸ short), restore_of_reorders canonical same]
  refine ⟨read m w canonical same rfl, ?_⟩
  intro m' w' canonical' same' alike
  have twice := (read m' w' canonical' same' alike).symm.trans (read m w canonical same rfl)
  exact Except.ok.inj twice

/-- The kinds of value that could be taken for absent: a query with options that are present with
nothing in them and parameters without a name or a value, written in another order; an insertion
with the durability that has number 0; a status below 0. -/
theorem decode_of_encode_of_defaults :
    let query : QueryRequest :=
      { readOnly := some false, tuning := some {}, clientContextId := some "",
        positional := [[], [49]], named := [("", []), ("$a", [50])], consistentWith := [{}] }
    let written := { query with named := [("$a", [50]), ("", [])] }
    let insertion : InsertRequest := { expirySecs := some 0, durability := some (.level 0) }
    let status : SpecStatus := { code := -5 }
    QueryRequest.layout.decode (QueryRequest.layout.encode written) = .ok query ∧
      InsertRequest.layout.decode (InsertRequest.layout.encode insertion) = .ok insertion ∧
      SpecStatus.layout.decode (SpecStatus.layout.encode status) = .ok status := by
  intro query written insertion status
  have queryRead := decode_of_encode (k := queryRequest) (m := query) (w := written)
    ⟨by decide, by decide⟩ ⟨.swap _ _ _, .refl _, rfl⟩ (by decide +kernel)
  have insertionRead := decode_of_encode (k := insertRequest) (m := insertion)
    True.intro rfl (by decide +kernel)
  have statusRead := decode_of_encode (k := specStatus) (m := status)
    True.intro rfl (by decide +kernel)
  exact ⟨queryRead.1, insertionRead.1, statusRead.1⟩

end MessageKind
end DocumentClient.Wire
