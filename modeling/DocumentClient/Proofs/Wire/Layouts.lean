import DocumentClient.Proofs.Wire.Transfer
import DocumentClient.Wire.Bucket
import DocumentClient.Wire.Query
import DocumentClient.Wire.Subdocument

/-!
# Layouts are read back

One lemma for each layout: what it writes, it reads. Each follows the fields of the layout in
their order and names for every one the lemma of the way in which it is declared; the two facts
that are left hold by computation, that the field is a part of its own and that nothing is in it
before it is read. Only the maps of a query come back in another form, ordered by key.
-/

namespace DocumentClient.Wire
variable {M : Type} {budget : Nat} {m acc : M}

theorem Target.transfers (get : M → Target) {set : Target → M → M} (lens : Lens get set)
    (fresh : get acc = {}) :
    Transfers budget m (Target.fields get set) acc (set (get m) acc) := by
  have bucket : Lens Target.bucket fun t x => { x with bucket := t } := rfl
  have scope : Lens Target.scope fun t x => { x with scope := t } := rfl
  have collection : Lens Target.collection fun t x => { x with collection := t } := rfl
  have key : Lens Target.key fun t x => { x with key := t } := rfl
  refine .of_eq (.cons (.single (lens.inner bucket) ?_) <|
    .cons (.single (lens.inner scope) ?_) <|
    .cons (.single (lens.inner collection) ?_) <|
    .cons (.single (lens.inner key) ?_) <| .nil _) ?_
  all_goals simp only [lens.get_set, lens.set_set, fresh]
  all_goals rfl

theorem Content.transfers {first : Nat} (get : M → Content) {set : Content → M → M}
    (lens : Lens get set) (fresh : get acc = {}) :
    Transfers budget m (Content.fields first get set) acc (set (get m) acc) := by
  have octets : Lens Content.octets fun b x => { x with octets := b } := rfl
  have format : Lens Content.format fun n x => { x with format := n } := rfl
  have flags : Lens Content.flags fun n x => { x with flags := n } := rfl
  refine .of_eq (.cons (.single (lens.inner octets) ?_) <|
    .cons (.single (lens.inner format) ?_) <|
    .cons (.single (lens.inner flags) ?_) <| .nil _) ?_
  all_goals simp only [lens.get_set, lens.set_set, fresh]
  all_goals rfl

theorem LegacyDurability.restores : LegacyDurability.layout.Restores 0 id :=
  .of_transfers (by decide) fun _ _ _ =>
    .cons (.single rfl rfl) <|
    .cons (.single rfl rfl) <|
    .nil _

/-- At most one of the two fields is written, so nothing takes its place. -/
theorem DurabilitySpec.transfers (get : M → Option DurabilitySpec)
    {set : Option DurabilitySpec → M → M} (deep : 0 < budget) (lens : Lens get set)
    (fresh : get acc = none) :
    Transfers budget m (DurabilitySpec.fields get set) acc (set (get m) acc) := by
  cases present : get m with
  | none =>
    refine .of_eq (.cons (.message_of_none ?_) <| .cons (.optional_of_none ?_) <| .nil _) ?_
    · rw [present, Option.bind_none]
    · rw [present, Option.bind_none]
    · rw [← fresh, lens.set_get]
  | some durability =>
    cases durability with
    | level n =>
      refine .cons (.message_of_none ?_) <| .cons (.optional_of_some (a := n) ?_) <| .nil _
      · rw [present]
        rfl
      · rw [present]
        rfl
    | legacy spec =>
      refine .cons (.message_of_some LegacyDurability.restores deep (n := spec) ?_ ?_) <|
        .cons (.optional_of_none ?_) <| .nil _
      · rw [present]
        rfl
      · rw [fresh]
        rfl
      · rw [present]
        rfl

theorem MutationToken.restores : MutationToken.layout.Restores 0 id :=
  .of_transfers (by decide) fun _ _ _ =>
    .cons (.single rfl rfl) <|
    .cons (.single rfl rfl) <|
    .cons (.single rfl rfl) <|
    .cons (.single rfl rfl) <|
    .nil _

theorem ErrorDetails.restores : ErrorDetails.layout.Restores 0 id :=
  .of_transfers (by decide) fun _ _ _ =>
    .cons (.single rfl rfl) <|
    .cons (.single rfl rfl) <|
    .cons (.single rfl rfl) <|
    .nil _

theorem SpecStatus.restores : SpecStatus.layout.Restores 0 id :=
  .of_transfers (by decide) fun _ _ _ =>
    .cons (.single rfl rfl) <|
    .cons (.single rfl rfl) <|
    .nil _

theorem GetRequest.restores : GetRequest.layout.Restores 0 id :=
  .of_transfers (by decide) fun _ _ _ =>
    .append (Target.transfers GetRequest.target rfl rfl) <|
    .cons (.repeated rfl rfl) <|
    .nil _

theorem GetResponse.restores : GetResponse.layout.Restores 0 id :=
  .of_transfers (by decide) fun _ _ _ =>
    .append (Content.transfers GetResponse.content rfl rfl) <|
    .cons (.single rfl rfl) <|
    .cons (.optional rfl rfl) <|
    .nil _

theorem ExistsRequest.restores : ExistsRequest.layout.Restores 0 id :=
  .of_transfers (by decide) fun _ _ _ => Target.transfers ExistsRequest.target rfl rfl

theorem ExistsResponse.restores : ExistsResponse.layout.Restores 0 id :=
  .of_transfers (by decide) fun _ _ _ =>
    .cons (.single rfl rfl) <|
    .cons (.single rfl rfl) <|
    .nil _

theorem InsertRequest.restores : InsertRequest.layout.Restores 1 id :=
  .of_transfers (by decide) fun _ deep _ =>
    .append
      (.append
        (.append (Target.transfers InsertRequest.target rfl rfl)
          (Content.transfers InsertRequest.content rfl rfl))
        (.cons (.optional rfl rfl) <|
          .nil _))
      (DurabilitySpec.transfers InsertRequest.durability deep rfl rfl)

theorem UpsertRequest.restores : UpsertRequest.layout.Restores 1 id :=
  .of_transfers (by decide) fun _ deep _ =>
    .append
      (.append
        (.append (Target.transfers UpsertRequest.target rfl rfl)
          (Content.transfers UpsertRequest.content rfl rfl))
        (.cons (.optional rfl rfl) <|
          .cons (.optional rfl rfl) <|
          .nil _))
      (DurabilitySpec.transfers UpsertRequest.durability deep rfl rfl)

theorem ReplaceRequest.restores : ReplaceRequest.layout.Restores 1 id :=
  .of_transfers (by decide) fun _ deep _ =>
    .append
      (.append
        (.append (Target.transfers ReplaceRequest.target rfl rfl)
          (Content.transfers ReplaceRequest.content rfl rfl))
        (.cons (.optional rfl rfl) <|
          .cons (.optional rfl rfl) <|
          .cons (.optional rfl rfl) <|
          .nil _))
      (DurabilitySpec.transfers ReplaceRequest.durability deep rfl rfl)

theorem RemoveRequest.restores : RemoveRequest.layout.Restores 1 id :=
  .of_transfers (by decide) fun _ deep _ =>
    .append
      (.append (Target.transfers RemoveRequest.target rfl rfl)
        (.cons (.optional rfl rfl) <|
          .nil _))
      (DurabilitySpec.transfers RemoveRequest.durability deep rfl rfl)

theorem MutationResponse.restores (name : String) : (MutationResponse.layout name).Restores 1 id :=
  .of_transfers (show (MutationResponse.layout "").WellTagged by decide) fun _ deep _ =>
    .cons (.single rfl rfl) <|
    .cons (.message MutationToken.restores deep rfl rfl) <|
    .nil _

theorem LookupSpecFlags.restores : LookupSpecFlags.layout.Restores 0 id :=
  .of_transfers (by decide) fun _ _ _ =>
    .cons (.optional rfl rfl) <|
    .nil _

theorem LookupSpec.restores : LookupSpec.layout.Restores 1 id :=
  .of_transfers (by decide) fun _ deep _ =>
    .cons (.single rfl rfl) <|
    .cons (.single rfl rfl) <|
    .cons (.message LookupSpecFlags.restores deep rfl rfl) <|
    .nil _

theorem LookupFlags.restores : LookupFlags.layout.Restores 0 id :=
  .of_transfers (by decide) fun _ _ _ =>
    .cons (.optional rfl rfl) <|
    .nil _

theorem LookupInRequest.restores : LookupInRequest.layout.Restores 2 id :=
  .of_transfers (by decide) fun _ deep _ =>
    .append (Target.transfers LookupInRequest.target rfl rfl) <|
    .cons (.messages LookupSpec.restores deep rfl rfl) <|
    .cons (.message LookupFlags.restores (Nat.zero_lt_of_lt deep) rfl rfl) <|
    .nil _

theorem LookupEntry.restores : LookupEntry.layout.Restores 1 id :=
  .of_transfers (by decide) fun _ deep _ =>
    .cons (.message SpecStatus.restores deep rfl rfl) <|
    .cons (.single rfl rfl) <|
    .nil _

theorem LookupInResponse.restores : LookupInResponse.layout.Restores 2 id :=
  .of_transfers (by decide) fun _ deep _ =>
    .cons (.messages LookupEntry.restores deep rfl rfl) <|
    .cons (.single rfl rfl) <|
    .nil _

theorem MutateSpecFlags.restores : MutateSpecFlags.layout.Restores 0 id :=
  .of_transfers (by decide) fun _ _ _ =>
    .cons (.optional rfl rfl) <|
    .cons (.optional rfl rfl) <|
    .nil _

theorem MutateSpec.restores : MutateSpec.layout.Restores 1 id :=
  .of_transfers (by decide) fun _ deep _ =>
    .cons (.single rfl rfl) <|
    .cons (.single rfl rfl) <|
    .cons (.single rfl rfl) <|
    .cons (.message MutateSpecFlags.restores deep rfl rfl) <|
    .nil _

theorem MutateInRequest.restores : MutateInRequest.layout.Restores 2 id :=
  .of_transfers (by decide) fun _ deep _ =>
    .append
      (.append (Target.transfers MutateInRequest.target rfl rfl)
        (.cons (.messages MutateSpec.restores deep rfl rfl) <|
          .cons (.optional rfl rfl) <|
          .cons (.optional rfl rfl) <|
          .cons (.optional rfl rfl) <|
          .cons (.optional rfl rfl) <|
          .cons (.optional rfl rfl) <|
          .nil _))
      (DurabilitySpec.transfers MutateInRequest.durability (Nat.zero_lt_of_lt deep) rfl rfl)

theorem MutateEntry.restores : MutateEntry.layout.Restores 0 id :=
  .of_transfers (by decide) fun _ _ _ =>
    .cons (.optional rfl rfl) <|
    .nil _

theorem MutateInResponse.restores : MutateInResponse.layout.Restores 1 id :=
  .of_transfers (by decide) fun _ deep _ =>
    .cons (.messages MutateEntry.restores deep rfl rfl) <|
    .cons (.single rfl rfl) <|
    .cons (.message MutationToken.restores deep rfl rfl) <|
    .nil _

theorem TuningOptions.restores : TuningOptions.layout.Restores 0 id :=
  .of_transfers (by decide) fun _ _ _ =>
    .cons (.optional rfl rfl) <|
    .cons (.optional rfl rfl) <|
    .cons (.optional rfl rfl) <|
    .cons (.optional rfl rfl) <|
    .cons (.optional rfl rfl) <|
    .cons (.optional rfl rfl) <|
    .nil _

/-- A query with its maps ordered by key. -/
def QueryRequest.ordered (m : QueryRequest) : QueryRequest :=
  { m with named := Keyed.ofList m.named, raw := Keyed.ofList m.raw }

theorem QueryRequest.restores : QueryRequest.layout.Restores 1 QueryRequest.ordered :=
  .of_transfers (by decide) fun _ deep _ =>
    .cons (.single rfl rfl) <|
    .cons (.optional rfl rfl) <|
    .cons (.optional rfl rfl) <|
    .cons (.optional rfl rfl) <|
    .cons (.message TuningOptions.restores deep rfl rfl) <|
    .cons (.optional rfl rfl) <|
    .cons (.optional rfl rfl) <|
    .cons (.repeated rfl rfl) <|
    .cons (.textMap deep rfl rfl) <|
    .cons (.optional rfl rfl) <|
    .cons (.optional rfl rfl) <|
    .cons (.messages MutationToken.restores deep rfl rfl) <|
    .cons (.optional rfl rfl) <|
    .cons (.textMap deep rfl rfl) <|
    .nil _

theorem QueryMetrics.restores : QueryMetrics.layout.Restores 0 id :=
  .of_transfers (by decide) fun _ _ _ =>
    .cons (.single rfl rfl) <|
    .cons (.single rfl rfl) <|
    .cons (.single rfl rfl) <|
    .cons (.single rfl rfl) <|
    .cons (.single rfl rfl) <|
    .cons (.single rfl rfl) <|
    .cons (.single rfl rfl) <|
    .cons (.single rfl rfl) <|
    .nil _

theorem QueryWarning.restores : QueryWarning.layout.Restores 0 id :=
  .of_transfers (by decide) fun _ _ _ =>
    .cons (.single rfl rfl) <|
    .cons (.single rfl rfl) <|
    .nil _

theorem QueryMetadata.restores : QueryMetadata.layout.Restores 1 id :=
  .of_transfers (by decide) fun _ deep _ =>
    .cons (.single rfl rfl) <|
    .cons (.single rfl rfl) <|
    .cons (.single rfl rfl) <|
    .cons (.single rfl rfl) <|
    .cons (.message QueryMetrics.restores deep rfl rfl) <|
    .cons (.messages QueryWarning.restores deep rfl rfl) <|
    .cons (.optional rfl rfl) <|
    .nil _

theorem QueryResponse.restores : QueryResponse.layout.Restores 2 id :=
  .of_transfers (by decide) fun _ deep _ =>
    .cons (.repeated rfl rfl) <|
    .cons (.message QueryMetadata.restores deep rfl rfl) <|
    .nil _

theorem BucketSettings.restores : BucketSettings.layout.Restores 0 id :=
  .of_transfers (by decide) fun _ _ _ =>
    .cons (.single rfl rfl) <|
    .cons (.single rfl rfl) <|
    .cons (.single rfl rfl) <|
    .cons (.optional rfl rfl) <|
    .cons (.optional rfl rfl) <|
    .cons (.optional rfl rfl) <|
    .cons (.optional rfl rfl) <|
    .cons (.optional rfl rfl) <|
    .cons (.optional rfl rfl) <|
    .cons (.optional rfl rfl) <|
    .cons (.optional rfl rfl) <|
    .cons (.optional rfl rfl) <|
    .nil _

theorem BucketRequest.restores (name : String) : (BucketRequest.layout name).Restores 1 id :=
  .of_transfers (show (BucketRequest.layout "").WellTagged by decide) fun _ deep _ =>
    .cons (.message BucketSettings.restores deep rfl rfl) <|
    .nil _

theorem DeleteBucketRequest.restores : DeleteBucketRequest.layout.Restores 0 id :=
  .of_transfers (by decide) fun _ _ _ =>
    .cons (.single rfl rfl) <|
    .nil _

theorem EmptyMessage.restores (name : String) : (EmptyMessage.layout name).Restores 0 id :=
  .of_transfers (show (EmptyMessage.layout "").WellTagged by decide) fun _ _ _ => .nil _

theorem ListBucketsResponse.restores : ListBucketsResponse.layout.Restores 1 id :=
  .of_transfers (by decide) fun _ deep _ =>
    .cons (.messages BucketSettings.restores deep rfl rfl) <|
    .nil _

end DocumentClient.Wire
