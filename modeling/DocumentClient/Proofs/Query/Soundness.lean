import DocumentClient.Proofs.Query.Built
import DocumentClient.Proofs.Requests.Parts
import Mathlib.Data.List.TakeWhile

/-!
# Sound queries

A query that was prepared has a statement that is not blank, and if it has a client context id,
that is not empty. No change touches the statement, and none sets an empty id. The request of a
sound query obeys the rules for queries.
-/

namespace DocumentClient

theorem Text.exists_not_blank {cs : List Char} (h : trimChars cs ≠ []) :
    ∃ c ∈ cs, isBlank c = false := by
  apply Decidable.of_not_not
  intro blank
  apply h
  have all : ∀ c ∈ cs, isBlank c = true := by
    intro c hc
    cases hb : isBlank c with
    | true => rfl
    | false => exact absurd ⟨c, hc, hb⟩ blank
  have dropped : cs.dropWhile isBlank = [] := by
    rw [List.dropWhile_eq_nil_iff]
    exact all
  rw [trimChars, dropped]
  rfl

namespace Query

structure Sound (q : Query) : Prop where
  statement : ∃ c ∈ q.statement.toList, Text.isBlank c = false
  clientContextId : q.clientContextId ≠ some ""

/-- A change leaves the statement alone and sets no empty id. -/
theorem Sound.change {q next : Query} (h : q.Sound) {c : QueryChange}
    (hc : q.change c = .ok next) : next.Sound := by
  have kept : next.statement = q.statement ∧ (next.clientContextId = q.clientContextId ∨
      ∃ id, id ≠ "" ∧ next.clientContextId = some id) := by
    cases c with
    | timeout d =>
      rw [Query.change] at hc
      split at hc <;> cases hc
      exact ⟨rfl, .inl rfl⟩
    | consistency c =>
      rw [Query.change] at hc
      split at hc <;> cases hc
      exact ⟨rfl, .inl rfl⟩
    | consistentWith state =>
      rw [Query.change] at hc
      split at hc <;> cases hc
      exact ⟨rfl, .inl rfl⟩
    | scanWait d =>
      rw [Query.change] at hc
      split at hc <;> cases hc
      exact ⟨rfl, .inl rfl⟩
    | clientContextId id =>
      rw [Query.change] at hc
      split at hc
      · cases hc
      · next named =>
        cases hc
        exact ⟨rfl, .inr ⟨id, named, rfl⟩⟩
    | _ =>
      cases hc
      exact ⟨rfl, .inl rfl⟩
  refine ⟨kept.1 ▸ h.statement, ?_⟩
  rcases kept.2 with same | ⟨id, named, set⟩
  · rw [same]
    exact h.clientContextId
  · rw [set]
    intro empty
    exact named (Option.some.inj empty)

theorem Sound.leads {q next : Query} (h : q.Sound) (leads : Leads q next) : next.Sound := by
  induction leads with
  | refl => exact h
  | change _ changed ih => exact ih.change changed

/-- Every prepared query is sound. -/
theorem sound_of_prepare {scope : Option Scope} {statement : String} {input : QueryInput}
    {q : Query} (h : prepare scope statement input = .ok q) : q.Sound := by
  obtain ⟨text, leads⟩ := leads_of_prepare h
  have start : ({ statement } : Query).Sound := ⟨Text.exists_not_blank text, nofun⟩
  exact start.leads leads

theorem Sound.toWire {q : Query} (h : q.Sound) {request : Wire.QueryRequest}
    (hw : q.toWire = .ok request) : request.WellFormed := by
  rw [Query.toWire] at hw
  split at hw
  · cases hw
  · cases hw
    refine ⟨h.statement, h.clientContextId, ?_⟩
    intro entry he
    obtain ⟨⟨k, v⟩, -, rfl⟩ := List.mem_map.mp he
    exact ⟨k, rfl⟩

end Query
end DocumentClient
