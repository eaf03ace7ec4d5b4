import DocumentClient.Proofs.MutationState
import DocumentClient.Proofs.Query.Freshness

/-!
# Queries that cover one's own writes

The results of writes are collected in a mutation state, and a query is asked to be consistent with
it. Its request then names, for each partition of each bucket in which a write was answered with a
token, the latest of these tokens as the server sent it, and nothing else. Main statement:
`Query.consistentWith_covers`.
-/

namespace DocumentClient

namespace MutationToken

theorem toWire_of_ofWire? {w : Wire.MutationToken} {t : MutationToken} (h : ofWire? w = some t) :
    t.toWire = w := by
  rw [ofWire?] at h
  split at h
  · next small =>
    cases h
    have kept : w.partition.toUInt16.toUInt32 = w.partition := by
      apply UInt32.toNat_inj.mp
      simpa using Nat.mod_eq_of_lt small
    rw [toWire, kept]
  · cases h

end MutationToken

theorem toWire_of_readToken {w : Option Wire.MutationToken} {t : Option MutationToken}
    (h : readToken w = .ok t) : t.map (·.toWire) = w := by
  cases w with
  | none =>
    cases h
    rfl
  | some w =>
    rw [readToken] at h
    split at h
    · next t ht =>
      cases h
      rw [Option.map_some, MutationToken.toWire_of_ofWire? ht]
    · cases h

theorem MutationResult.token_of_ofWire {w : Wire.MutationResponse} {r : MutationResult}
    (h : ofWire w = .ok r) : r.token.map (·.toWire) = w.token := by
  rw [ofWire] at h
  split at h
  · next read =>
    cases h
    exact toWire_of_readToken read
  · cases h

theorem MutateResult.token_of_ofWire {specs : List MutateSpec} {w : Wire.MutateInResponse}
    {r : MutateResult} (h : ofWire specs w = .ok r) : r.token.map (·.toWire) = w.token := by
  rw [ofWire] at h
  split at h
  · cases h
  split at h
  · cases h
  split at h
  · cases h
  · next read =>
    cases h
    exact toWire_of_readToken read

/-- The reply to a write of a document or to one of paths in it. -/
inductive WriteReply where
  | document (w : Wire.MutationResponse)
  | paths (specs : List MutateSpec) (w : Wire.MutateInResponse)

namespace WriteReply

/-- The token that the server sent. -/
def token? : WriteReply → Option Wire.MutationToken
  | .document w => w.token
  | .paths _ w => w.token

def read : WriteReply → Except Error Answer
  | .document w => (MutationResult.ofWire w).map .mutated
  | .paths specs w => (MutateResult.ofWire specs w).map .changed

end WriteReply

/-- A result of a write, as it was read from its reply. -/
structure WriteResult where
  reply : WriteReply
  answer : Answer
  read : reply.read = .ok answer

theorem map_eq_ok {ε α β : Type} {x : Except ε α} {f : α → β} {b : β}
    (h : x.map f = .ok b) : ∃ a, x = .ok a ∧ f a = b := by
  cases x with
  | error => cases h
  | ok a => exact ⟨a, rfl, Except.ok.inj h⟩

/-- The token of a result is the one that the server sent. -/
theorem WriteResult.token_eq (r : WriteResult) :
    r.answer.token?.map (·.toWire) = r.reply.token? := by
  obtain ⟨reply, answer, read⟩ := r
  cases reply with
  | document w =>
    obtain ⟨result, made, rfl⟩ := map_eq_ok read
    exact MutationResult.token_of_ofWire made
  | paths specs w =>
    obtain ⟨result, made, rfl⟩ := map_eq_ok read
    exact MutateResult.token_of_ofWire made

namespace MutationState

/-- What a state holds when the results of writes were added to it one after another. -/
def ofResults (results : List WriteResult) : MutationState :=
  results.foldl (fun state r => state.addToken? r.answer.token?) {}

theorem foldl_addToken? (results : List WriteResult) (state : MutationState) :
    results.foldl (fun state r => state.addToken? r.answer.token?) state =
      state.addAll (results.filterMap (·.answer.token?)) := by
  induction results generalizing state with
  | nil => rfl
  | cons r rest ih =>
    rw [List.foldl_cons, ih, List.filterMap_cons]
    cases r.answer.token? <;> rfl

theorem ofResults_eq (results : List WriteResult) :
    ofResults results = ofList (results.filterMap (·.answer.token?)) :=
  foldl_addToken? results {}

end MutationState

theorem wireTokens_eq (results : List WriteResult) :
    results.filterMap (·.reply.token?) =
      (results.filterMap (·.answer.token?)).map (·.toWire) := by
  rw [List.map_filterMap]
  congr
  exact funext fun r => r.token_eq.symm

namespace Wire.MutationToken

/-- A smaller bucket name, or the same one and a smaller partition. -/
def Precedes (a b : MutationToken) : Prop :=
  a.bucket < b.bucket ∨ (a.bucket = b.bucket ∧ a.partition < b.partition)

def SamePlace (a b : MutationToken) : Prop := a.bucket = b.bucket ∧ a.partition = b.partition

instance (a b : MutationToken) : Decidable (SamePlace a b) :=
  inferInstanceAs (Decidable (_ ∧ _))

end Wire.MutationToken

open Wire.MutationToken in
/-- What is sent to cover some tokens: for the place of each exactly one of them, which is the
latest there, and nothing else, in the order of the places. -/
structure Covers (sent tokens : List Wire.MutationToken) : Prop where
  genuine : ∀ u ∈ sent, u ∈ tokens
  latest : ∀ t ∈ tokens, ∃ u, sent.filter (fun v => SamePlace v t) = [u] ∧
    ∀ v ∈ tokens, SamePlace v t → v.seqno ≤ u.seqno
  ordered : sent.Pairwise Precedes

namespace MutationToken

theorem samePlace_toWire {a b : MutationToken} :
    Wire.MutationToken.SamePlace a.toWire b.toWire ↔ MutationState.SamePlace a b := by
  simp [Wire.MutationToken.SamePlace, MutationState.SamePlace, toWire, UInt16.toUInt32_inj]

theorem precedes_toWire {a b : MutationToken} :
    Wire.MutationToken.Precedes a.toWire b.toWire ↔ MutationState.Precedes a b := by
  simp [Wire.MutationToken.Precedes, MutationState.Precedes, toWire, UInt16.toUInt32_lt]

end MutationToken

/-- The latest tokens of a list cover it. -/
theorem MutationState.Holds.covers {stored added : List MutationToken} (h : Holds stored added) :
    Covers (stored.map (·.toWire)) (added.map (·.toWire)) := by
  constructor
  · rw [List.forall_mem_map]
    exact fun u hu => List.mem_map_of_mem (h.genuine u hu)
  · rw [List.forall_mem_map]
    intro t ht
    obtain ⟨u, hu, same, -⟩ := h.latest t ht
    refine ⟨u.toWire, ?_, ?_⟩
    · rw [List.filter_map]
      simp only [Function.comp_def, MutationToken.samePlace_toWire]
      rw [filter_samePlace h.ordered hu same, List.map_singleton]
    · rw [List.forall_mem_map]
      intro v hv place
      obtain ⟨w, hw, there, late⟩ := h.latest v hv
      have place := MutationToken.samePlace_toWire.mp place
      obtain rfl := eq_of_samePlace h.ordered hw hu (there.trans (place.trans same.symm))
      exact late
  · rw [List.pairwise_map]
    exact h.ordered.imp MutationToken.precedes_toWire.mpr

namespace Query

/-- A query that is asked to be consistent with the results of writes waits for the latest of each
partition, and for these only; where no result carries a token it is refused. -/
theorem consistentWith_covers (results : List WriteResult)
    {plain attempt : Except QueryRefusal Query}
    (asks : Asks (.ofResults results) plain attempt) :
    let tokens := results.filterMap (·.reply.token?)
    (tokens ≠ [] → ∀ q, plain = .ok q → ∃ request,
      orRefuse .query attempt = .ok (q.withFreshness (.atLeast (.ofResults results))) ∧
      (q.withFreshness (.atLeast (.ofResults results))).toWire = .ok request ∧
      request.scanConsistency = none ∧ Covers request.consistentWith tokens) ∧
    (tokens = [] → ∃ e, orRefuse .query attempt = .error e ∧ e.kind = .invalidArgument) := by
  have held := MutationState.holds_ofList (results.filterMap (·.answer.token?))
  rw [← MutationState.ofResults_eq] at held
  simp only [wireTokens_eq, ne_eq, List.map_eq_nil_iff]
  constructor
  · intro some q made
    subst made
    have filled := mt held.isEmpty_iff.mp some
    have short : (q.withFreshness (.atLeast (.ofResults results))).ShortWait :=
      (asks.built rfl).shortWait
    obtain ⟨request, sent⟩ := short.toWire_ok
    rw [asks.requires.waits filled]
    refine ⟨request, rfl, sent, ?_⟩
    rw [toWire] at sent
    split at sent
    · cases sent
    · cases sent
      exact ⟨rfl, held.covers⟩
  · intro none
    obtain ⟨why, refused⟩ := asks.requires.refused (held.isEmpty_iff.mpr none)
    rw [refused]
    exact ⟨_, rfl, rfl⟩

theorem consistentWith_covers_of_results :
    let results : List WriteResult :=
      [⟨.document { cas := 1, token := some ⟨"b", 7, 100, 3⟩ },
          .mutated ⟨1, some ⟨"b", 7, 100, 3⟩⟩, rfl⟩,
        ⟨.paths [] { cas := 2, token := some ⟨"b", 7, 100, 5⟩ },
          .changed ⟨2, some ⟨"b", 7, 100, 5⟩, []⟩, rfl⟩,
        ⟨.document { cas := 3 }, .mutated ⟨3, none⟩, rfl⟩]
    let state := MutationState.ofResults results
    ∃ q request,
      orRefuse .query (prepare none "SELECT 1" (.options { consistentWith := some state })) =
        .ok q ∧
      q.toWire = .ok request ∧ request.scanConsistency = none ∧
      request.consistentWith = [⟨"b", 7, 100, 5⟩] ∧
      Covers request.consistentWith (results.filterMap (·.reply.token?)) := by
  intro results state
  have asks : Asks state (prepare none "SELECT 1" (.options {}))
      (prepare none "SELECT 1" (.options { consistentWith := some state })) :=
    .prepare none "SELECT 1" (.options {}) rfl True.intro
  have plain : prepare none "SELECT 1" (.options {}) = .ok { statement := "SELECT 1" } := by
    simp only [prepare, QueryOptions.within]
    rw [ofOptions, if_neg (by decide)]
    rfl
  obtain ⟨request, accepted, sent, bounded, covers⟩ :=
    (consistentWith_covers results asks).1 (by decide) _ plain
  refine ⟨_, request, accepted, sent, bounded, ?_, covers⟩
  have tokens : state.toWire = [⟨"b", 7, 100, 5⟩] := by decide
  rw [toWire] at sent
  cases sent
  exact tokens

end Query
end DocumentClient
