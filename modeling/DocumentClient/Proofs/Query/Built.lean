import DocumentClient.Session

/-!
# Built queries

A query is built from its statement by changes, whichever way they come in: one after another, by
the options of an object, by name, or as keywords. What every change keeps therefore holds of every
query. Main statements: `built_of_prepare`, and `Built.shortWait` with `ShortWait.toWire_ok`: the
request for a built query can always be made.
-/

namespace DocumentClient

namespace Query

/-- Queries that come from another one by changes. -/
inductive Leads (q : Query) : Query → Prop where
  | refl : Leads q q
  | change {mid next : Query} {c : QueryChange} (before : Leads q mid)
    (changed : mid.change c = .ok next) : Leads q next

/-- Queries that come from a statement by changes. -/
def Built (q : Query) : Prop := ∃ statement, Leads { statement } q

theorem Leads.trans {p q r : Query} (hpq : Leads p q) (hqr : Leads q r) : Leads p r := by
  induction hqr with
  | refl => exact hpq
  | change _ changed ih => exact ih.change changed

theorem Built.leads {q next : Query} (built : q.Built) (h : Leads q next) : next.Built := by
  obtain ⟨statement, before⟩ := built
  exact ⟨statement, before.trans h⟩

theorem Built.change {q next : Query} {c : QueryChange} (built : q.Built)
    (changed : q.change c = .ok next) : next.Built :=
  built.leads (.change .refl changed)

theorem leads_of_changeAll {q next : Query} {cs : List QueryChange}
    (h : q.changeAll cs = .ok next) : Leads q next := by
  induction cs generalizing q with
  | nil =>
    cases h
    exact .refl
  | cons c rest ih =>
    rw [changeAll] at h
    split at h
    · next changed => exact (Leads.change .refl changed).trans (ih h)
    · cases h

theorem leads_of_setOption {q next : Query} {name : String} {v : Json.Value}
    (h : q.setOption name v = .ok (some next)) : Leads q next := by
  rw [setOption] at h
  split at h
  · cases h
  · cases h
  · next c _ =>
    cases changed : q.change c with
    | error why =>
      rw [changed] at h
      cases h
    | ok after =>
      rw [changed] at h
      cases h
      exact .change .refl changed

theorem leads_setNamed (q : Query) (entries : List (String × Json.Value)) :
    Leads q (q.setNamed entries) :=
  .change (c := .named entries) .refl rfl

theorem leads_of_setKeywords {q next : Query} {keywords : List (String × Json.Value)}
    (h : q.setKeywords keywords = .ok next) : Leads q next := by
  induction keywords generalizing q with
  | nil =>
    cases h
    exact .refl
  | cons keyword rest ih =>
    obtain ⟨name, v⟩ := keyword
    rw [setKeywords] at h
    split at h
    · cases h
    · next set => exact (leads_of_setOption set).trans (ih h)
    · exact (leads_setNamed q _).trans (ih h)

theorem leads_of_ofOptions {statement : String} {o : QueryOptions} {q : Query}
    (h : ofOptions statement o = .ok q) :
    Text.trimChars statement.toList ≠ [] ∧ Leads { statement } q := by
  rw [ofOptions] at h
  split at h
  · cases h
  · next text => exact ⟨text, leads_of_changeAll h⟩

theorem leads_of_ofArguments {place : Option (String × String)} {statement : String}
    {args : List QueryArgument} {q : Query} (h : ofArguments place statement args = .ok q) :
    Text.trimChars statement.toList ≠ [] ∧ Leads { statement } q := by
  rw [ofArguments] at h
  split at h
  · cases h
  · simp only at h
    split at h
    · cases h
    · next made =>
      obtain ⟨text, leads⟩ := leads_of_ofOptions made
      exact ⟨text, leads.trans (leads_of_setKeywords h)⟩

/-- Every prepared query has a statement that is not blank, and comes from it by changes. -/
theorem leads_of_prepare {scope : Option Scope} {statement : String} {input : QueryInput}
    {q : Query} (h : prepare scope statement input = .ok q) :
    Text.trimChars statement.toList ≠ [] ∧ Leads { statement } q := by
  cases input with
  | options o => exact leads_of_ofOptions h
  | arguments args => exact leads_of_ofArguments h

theorem built_of_prepare {scope : Option Scope} {statement : String} {input : QueryInput}
    {q : Query} (h : prepare scope statement input = .ok q) : q.Built :=
  ⟨statement, (leads_of_prepare h).2⟩

/-- A time to wait that is set has 64 bits in microseconds. -/
def ShortWait (q : Query) : Prop := ∀ d, q.scanWait = some d → isShortWait d = true

theorem ShortWait.change {q next : Query} {c : QueryChange} (short : q.ShortWait)
    (changed : q.change c = .ok next) : next.ShortWait := by
  cases c with
  | scanWait d =>
    rw [Query.change] at changed
    split at changed
    · next fits =>
      cases changed
      intro e he
      cases he
      exact fits
    · cases changed
  | timeout | consistency | consistentWith | clientContextId =>
    rw [Query.change] at changed
    split at changed <;> cases changed
    exact short
  | _ =>
    cases changed
    exact short

theorem Built.shortWait {q : Query} (built : q.Built) : q.ShortWait := by
  obtain ⟨statement, leads⟩ := built
  induction leads with
  | refl => exact nofun
  | change _ changed ih => exact ih.change changed

theorem ShortWait.toWire_ok {q : Query} (short : q.ShortWait) :
    ∃ request, q.toWire = .ok request := by
  have wait : ∃ micros, q.scanWaitMicros = .ok micros := by
    rw [scanWaitMicros]
    split
    · exact ⟨_, rfl⟩
    · next d hd =>
      rw [if_pos (short d hd)]
      exact ⟨_, rfl⟩
  obtain ⟨micros, h⟩ := wait
  rw [toWire, h]
  exact ⟨_, rfl⟩

end Query
end DocumentClient
