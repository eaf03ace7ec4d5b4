import DocumentClient.Bucket.Settings
import DocumentClient.Keyspace
import DocumentClient.Service.Exchange
import DocumentClient.Subdocument.Spec
import DocumentClient.Text.Blank
import Mathlib.Algebra.Ring.Int.Defs

/-!
# Rules of well-formed requests

What a server may rely on in every message of a client, said of the messages alone and with
their numbers, without a word about how a client checks its arguments.
-/

namespace DocumentClient

/-- A key has 1 to 250 octets. -/
def ValidKey (key : String) : Prop := 1 ≤ key.utf8ByteSize ∧ key.utf8ByteSize ≤ 250
deriving Decidable

/-- A bucket name has 1 to 100 letters, digits and signs. -/
def ValidBucketName (name : String) : Prop :=
  1 ≤ name.utf8ByteSize ∧ name.utf8ByteSize ≤ 100 ∧
    ∀ c ∈ name.toList, c.isAlphanum ∨ c = '.' ∨ c = '_' ∨ c = '-' ∨ c = '%'

namespace Wire

def Target.WellFormed (t : Target) : Prop := ValidKey t.key

def DurabilitySpec.WellFormed : DurabilitySpec → Prop
  | .level n => n = 0 ∨ n = 1 ∨ n = 2
  | .legacy s => ¬ (s.replicated = 0 ∧ s.persisted = 0) ∧ s.replicated ≤ 3 ∧ s.persisted ≤ 4

/-- Only a removal, operation 3, has no content; that of a counter, operation 8, is a signed
integer of 64 bits other than zero. -/
structure MutateSpec.WellFormed (s : MutateSpec) : Prop where
  empty_iff : s.content = [] ↔ s.operation = 3
  counter : s.operation = 8 →
    ∃ n : Int, s.content = Decimal.intBytes n ∧ n ≠ 0 ∧ -2 ^ 63 ≤ n ∧ n < 2 ^ 63

/-- The rules for bucket settings; types are 0 for couchbase, 1 for memcached and 2 for
ephemeral buckets. -/
structure BucketSettings.WellFormed (w : BucketSettings) : Prop where
  name : ValidBucketName w.name
  ramQuota : 100 ≤ w.ramQuotaMb
  replicas : ∀ n, w.replicas = some n → n ≤ 3 ∧ (w.bucketType = 1 → n = 0)
  eviction : ∀ n, w.eviction = some n →
    (w.bucketType = 0 ∧ (n = 0 ∨ n = 2)) ∨ (w.bucketType = 2 ∧ (n = 1 ∨ n = 3))
  backend : w.backend = some 1 → w.bucketType = 0
  /-- The settings are those of a caller, whose maximal expiry is not cut to 32 bits. -/
  checked : ∃ s : DocumentClient.BucketSettings, s.validate = .ok () ∧ w = s.toWire ∧
    w.maxExpirySecs.map UInt32.toNat = s.maxExpiry.map Duration.seconds

structure QueryRequest.WellFormed (q : QueryRequest) : Prop where
  statement : ∃ c ∈ q.statement.toList, Text.isBlank c = false
  clientContextId : q.clientContextId ≠ some ""
  named : ∀ entry ∈ q.named, ∃ name, entry.1 = "$" ++ name

end Wire

open Wire

/-- The rules for the message of each method. -/
def Method.WellFormed : (m : Method) → m.Request → Prop
  | .get, r => r.target.WellFormed ∧ "" ∉ r.project
  | .probe, r => r.target.WellFormed
  | .insert, r | .upsert, r => r.target.WellFormed ∧ ∀ d ∈ r.durability, d.WellFormed
  | .replace, r | .remove, r =>
    r.target.WellFormed ∧ r.cas ≠ some 0 ∧ ∀ d ∈ r.durability, d.WellFormed
  | .lookupIn, r => r.target.WellFormed ∧ r.specs ≠ []
  | .mutateIn, r =>
    r.target.WellFormed ∧ r.specs ≠ [] ∧ (∀ s ∈ r.specs, s.WellFormed) ∧ r.cas ≠ some 0 ∧
      ∀ d ∈ r.durability, d.WellFormed
  | .query, r => r.WellFormed
  | .createBucket, r | .updateBucket, r => ∃ w, r.settings = some w ∧ w.WellFormed
  | .deleteBucket, r => ValidBucketName r.name
  | .listBuckets, _ => True

def Call.WellFormed (c : Call) : Prop := c.method.WellFormed c.request

end DocumentClient
