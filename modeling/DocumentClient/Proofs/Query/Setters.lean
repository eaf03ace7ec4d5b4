import DocumentClient.Proofs.Query.Consistency
import DocumentClient.Proofs.Query.Properties
import DocumentClient.Query.Setters

/-!
# Setters keep a query whole

A setter could leave a query half changed, since what it has written stays when it fails. None
does: whatever can fail comes before the first write, so a setter comes to the one change of
`Query.change` or to nothing. A name addresses one property, and the options of that name write no
other, but that a consistency takes the place of mutations to wait for. Main statement:
`Setter.setters_atomic`.
-/

namespace DocumentClient

namespace QueryProperty

/-- The names under which a property is an option. -/
def names : QueryProperty → List String
  | .timeout => ["timeout"]
  | .readOnly => ["read_only", "readonly"]
  | .consistency => ["scan_consistency", "consistency"]
  | .consistentWith => ["consistent_with"]
  | .adhoc => ["adhoc"]
  | .clientContextId => ["client_context_id"]
  | .maxParallelism => ["max_parallelism"]
  | .pipelineBatch => ["pipeline_batch"]
  | .pipelineCap => ["pipeline_cap"]
  | .profile => ["profile"]
  | .queryContext => ["query_context"]
  | .scanCap => ["scan_cap"]
  | .scanWait => ["scan_wait"]
  | .flexIndex => ["flex_index"]
  | .preserveExpiry => ["preserve_expiry"]
  | .metrics => ["metrics"]
  | .raw => ["raw"]
  | .positional => ["positional_parameters"]
  | .named => ["named_parameters"]
  | .statement | .serializer => []

/-- What is written where this property is set by name. -/
def written : QueryProperty → List QueryProperty
  | .consistency => [.consistency, .consistentWith]
  | p => [p]

def all : List QueryProperty :=
  [.statement, .timeout, .readOnly, .consistency, .consistentWith, .adhoc, .clientContextId,
    .maxParallelism, .pipelineBatch, .pipelineCap, .profile, .queryContext, .scanCap, .scanWait,
    .flexIndex, .preserveExpiry, .metrics, .raw, .positional, .named, .serializer]

theorem mem_all (p : QueryProperty) : p ∈ all := by cases p <;> decide

end QueryProperty

namespace QueryChange
variable {name : String} {p : QueryProperty}

theorem ofOption?_of_unnamed (unnamed : ∀ p : QueryProperty, name ∉ p.names) (v : Json.Value) :
    ofOption? name v = none := by
  have others : name ∉ QueryProperty.all.flatMap QueryProperty.names := by
    simpa [QueryProperty.mem_all] using unnamed
  simp [QueryProperty.all, QueryProperty.names] at others
  simp [ofOption?, others]

/-- What is read for a name of a property is a change of that property, or nothing. -/
theorem ofOption?_of_named (named : name ∈ p.names) (v : Json.Value) :
    ∃ read, ofOption? name v = some read ∧ ∀ c, read = .ok c → c.properties = p.written := by
  have made {α : Type} {read : Except QueryRefusal α} {make : α → QueryChange}
      (writes : ∀ a, (make a).properties = p.written) :
      ∀ c, read.map make = .ok c → c.properties = p.written := by
    intro c parsed
    cases read with
    | error => cases parsed
    | ok a =>
      cases parsed
      exact writes a
  cases p with
  | statement | serializer => cases named
  | consistentWith =>
    obtain rfl := List.mem_singleton.mp named
    exact ⟨.error .stateByName, by simp [ofOption?], nofun⟩
  | readOnly | consistency =>
    simp only [QueryProperty.names, List.mem_cons, List.not_mem_nil, or_false] at named
    rcases named with rfl | rfl <;> exact ⟨_, by simp [ofOption?]; rfl, made fun _ => rfl⟩
  | _ =>
    obtain rfl := List.mem_singleton.mp named
    exact ⟨_, by simp [ofOption?]; rfl, made fun _ => rfl⟩

end QueryChange

namespace Setter

section
variable {α β : Type} {setter : Setter α} {rest : α → Setter β} {q next : Query}

theorem perform_bind_of_ok {a : α} (h : setter.perform q = (.ok a, next)) :
    (setter >>= rest).perform q = (rest a).perform next := by
  change (ExceptT.bindCont rest (setter.perform q).1).run (setter.perform q).2 = _
  rw [h]
  rfl

theorem perform_bind_of_error {why : QueryRefusal} (h : setter.perform q = (.error why, next)) :
    (setter >>= rest).perform q = (.error why, next) := by
  change (ExceptT.bindCont rest (setter.perform q).1).run (setter.perform q).2 = _
  rw [h]
  rfl

theorem perform_get (rest : Query → Setter β) (q : Query) :
    (get >>= rest).perform q = (rest q).perform q := rfl

/-- A loop over entries that writes each of them. -/
theorem perform_forM (write : Query → String × Json.Value → Query)
    (entries : List (String × Json.Value)) (q : Query) :
    perform (entries.forM fun e => modify (write · e)) q = (.ok (), entries.foldl write q) := by
  induction entries generalizing q with
  | nil => rfl
  | cons e rest ih => exact ih (write q e)

end

theorem foldl_setRaw (entries : List (String × Json.Value)) (q : Query) :
    entries.foldl (fun q e => q.setRaw [e]) q = q.setRaw entries := by
  induction entries generalizing q with
  | nil => rfl
  | cons e rest ih => exact ih _

theorem foldl_setNamed (entries : List (String × Json.Value)) (q : Query) :
    entries.foldl (fun q e => q.setNamed [e]) q = q.setNamed entries := by
  induction entries generalizing q with
  | nil => rfl
  | cons e rest ih => exact ih _

/-- The setter of a property comes to its change; a refused one has written nothing. -/
theorem perform_change (c : QueryChange) (q : Query) :
    (change c).perform q = ((q.change c).map fun _ => (), (q.change c).toOption.getD q) := by
  cases c with
  | timeout d =>
    rw [change, Query.change]
    cases d.isZero <;> rfl
  | consistency c =>
    rw [change, Query.change]
    cases Freshness.ofConsistency c <;> rfl
  | consistentWith state =>
    rw [change, Query.change, perform_get]
    cases q.freshness.consistentWith state <;> rfl
  | scanWait d =>
    rw [change, Query.change]
    cases Query.isShortWait d <;> rfl
  | clientContextId id =>
    rw [change, Query.change]
    by_cases empty : id = ""
    · rw [if_pos empty, if_pos empty]
      rfl
    · rw [if_neg empty, if_neg empty]
      rfl
  | raw entries =>
    refine (perform_forM _ entries q).trans ?_
    rw [foldl_setRaw]
    rfl
  | named entries =>
    refine (perform_forM _ entries q).trans ?_
    rw [foldl_setNamed]
    rfl
  | _ => rfl

/-- Setting an option by name comes to the pure form of it. -/
theorem perform_option (name : String) (v : Json.Value) (q : Query) :
    (option name v).perform q =
      ((q.setOption name v).map Option.isSome, (q.setOption name v).toOption.join.getD q) := by
  rw [option, Query.setOption]
  rcases QueryChange.ofOption? name v with _ | why | c
  · rfl
  · rfl
  · have done := perform_change c q
    dsimp only
    cases made : q.change c with
    | error why =>
      rw [made] at done
      exact perform_bind_of_error done
    | ok next =>
      rw [made] at done
      exact perform_bind_of_ok done

/-- All that setting an option by name can come to. -/
theorem perform_option_cases (name : String) (v : Json.Value) (q : Query) :
    ((∀ p : QueryProperty, name ∉ p.names) ∧ (option name v).perform q = (.ok false, q)) ∨
      ∃ p : QueryProperty, name ∈ p.names ∧
        ((∃ why, (option name v).perform q = (.error why, q)) ∨
          ∃ c next, QueryChange.ofOption? name v = some (.ok c) ∧ c.properties = p.written ∧
            q.change c = .ok next ∧ (option name v).perform q = (.ok true, next)) := by
  rw [perform_option, Query.setOption]
  by_cases named : ∃ p : QueryProperty, name ∈ p.names
  · obtain ⟨p, named⟩ := named
    refine .inr ⟨p, named, ?_⟩
    obtain ⟨read, parsed, writes⟩ := QueryChange.ofOption?_of_named named v
    rw [parsed]
    cases read with
    | error why => exact .inl ⟨why, rfl⟩
    | ok c =>
      dsimp only
      cases made : q.change c with
      | error why => exact .inl ⟨why, rfl⟩
      | ok next => exact .inr ⟨c, next, rfl, writes c rfl, made, rfl⟩
  · have unnamed : ∀ p : QueryProperty, name ∉ p.names := fun p h => named ⟨p, h⟩
    rw [QueryChange.ofOption?_of_unnamed unnamed]
    exact .inl ⟨unnamed, rfl⟩

/-- A setter that fails, or does not know the name, leaves the query as it was. One that succeeds
changes the property of its name only; setting a consistency also takes back the mutations to wait
for. Which names are known does not depend on the value. -/
theorem setters_atomic (q : Query) :
    (∀ (name : String) (v : Json.Value),
      let done := (option name v).perform q
      (done.1 ≠ .ok true → done.2 = q) ∧
        (done.1 = .ok true → ∃ p : QueryProperty, name ∈ p.names ∧
          (∀ other, other ∉ p.written → done.2.get other = q.get other) ∧
          (p = .consistency → done.2.get .consistentWith = none)) ∧
        (done.1 = .ok false ↔ ∀ p : QueryProperty, name ∉ p.names)) ∧
    ∀ c : QueryChange,
      let done := (change c).perform q
      (done.1 ≠ .ok () → done.2 = q) ∧
        (done.1 = .ok () → ∀ p, p ∉ c.properties → done.2.get p = q.get p) := by
  constructor
  · intro name v
    obtain ⟨unnamed, done⟩ | ⟨p, named, ⟨why, done⟩ | ⟨c, next, read, writes, made, done⟩⟩ :=
      perform_option_cases name v q
    · rw [done]
      exact ⟨fun _ => rfl, nofun, fun _ => unnamed, fun _ => rfl⟩
    · rw [done]
      exact ⟨fun _ => rfl, nofun, nofun, fun unnamed => absurd named (unnamed p)⟩
    · rw [done]
      refine ⟨fun other => absurd rfl other, fun _ => ⟨p, named, ?_, ?_⟩, nofun,
        fun unnamed => absurd named (unnamed p)⟩
      · intro other outside
        exact Query.get_of_change made (writes ▸ outside)
      · rintro rfl
        have either : name = "scan_consistency" ∨ name = "consistency" := by
          simpa [QueryProperty.names] using named
        obtain ⟨label, k, -, -, rfl⟩ := Query.consistency_of_ofOption? either read
        exact (Query.freshness_of_consistency made).2.2
  · intro c
    rw [perform_change]
    cases made : q.change c with
    | error why => exact ⟨fun _ => rfl, nofun⟩
    | ok next => exact ⟨fun other => absurd rfl other, fun _ p => Query.get_of_change made⟩

theorem setters_atomic_of_awaiting :
    let state : MutationState := .ofList [⟨"travel", 7, 21, 3⟩]
    let q : Query :=
      { statement := "SELECT 1", adhoc := some true, freshness := .atLeast state }
    let fresher := (option "scan_consistency" (.text "Request_Plus")).perform q
    let refused := (option "adhoc" (.text "no")).perform q
    let unknown := (option "limit" (.text "no")).perform q
    let emptied := (change (.consistentWith {})).perform q
    (fresher.1 = .ok true ∧ fresher.2.get .adhoc = some true ∧
        fresher.2.get .consistentWith = none) ∧
      refused.2 = q ∧ unknown = (.ok false, q) ∧ emptied.2 = q := by
  intro state q fresher refused unknown emptied
  refine ⟨?_, ?_, ?_, ?_⟩
  · have set : fresher.1 = .ok true := rfl
    obtain ⟨p, named, kept, cleared⟩ := ((setters_atomic q).1 _ _).2.1 set
    cases p
    case consistency => exact ⟨set, kept .adhoc (by decide), cleared rfl⟩
    all_goals exact absurd named (by decide)
  · have failed : refused.1 = .error (.wrongType "adhoc" "a boolean" (.text "no")) := rfl
    exact ((setters_atomic q).1 _ _).1 (failed ▸ nofun)
  · have said : unknown.1 = .ok false := rfl
    exact Prod.ext said (((setters_atomic q).1 _ _).1 (said ▸ nofun))
  · have failed : emptied.1 = .error .emptyState := rfl
    exact ((setters_atomic q).2 _).1 (failed ▸ nofun)

end Setter
end DocumentClient
