import DocumentClient.Proofs.Query.Freshness
import Mathlib.Data.List.Perm.Basic

/-!
# Properties of a query

A query is what can be read off it, one property at a time. Each change writes few of them and
looks at no others. So it leaves the rest as it is (`Query.get_of_change`), and changes that write
different properties come to the same in any order (`Query.changeAll_of_perm`).
-/

namespace DocumentClient

/-- What can be read off a query. -/
inductive QueryProperty where
  | statement
  | timeout
  | readOnly
  | consistency
  | consistentWith
  | adhoc
  | clientContextId
  | maxParallelism
  | pipelineBatch
  | pipelineCap
  | profile
  | queryContext
  | scanCap
  | scanWait
  | flexIndex
  | preserveExpiry
  | metrics
  | raw
  | positional
  | named
  | serializer
deriving DecidableEq

namespace QueryProperty

abbrev Value : QueryProperty → Type
  | .statement => String
  | .timeout | .scanWait => Option Duration
  | .readOnly | .adhoc | .flexIndex | .preserveExpiry | .metrics => Option Bool
  | .consistency => Option ScanConsistency
  | .consistentWith => Option MutationState
  | .clientContextId | .queryContext => Option String
  | .maxParallelism | .pipelineBatch | .pipelineCap | .scanCap => Option UInt32
  | .profile => Option Profile
  | .raw | .named => List (String × Json.Value)
  | .positional => List Json.Value
  | .serializer => Option Serializer

end QueryProperty

/-- What is read off a query that was asked for this freshness. -/
theorem Freshness.ext {a b : Freshness} (consistency : a.consistency? = b.consistency?)
    (state : a.state? = b.state?) : a = b := by
  cases a <;> cases b <;> simp_all [consistency?, state?]

namespace Query
variable {q next : Query} {p : QueryProperty}

def get (q : Query) : (p : QueryProperty) → p.Value
  | .statement => q.statement
  | .timeout => q.timeout
  | .readOnly => q.readOnly
  | .consistency => q.freshness.consistency?
  | .consistentWith => q.freshness.state?
  | .adhoc => q.adhoc
  | .clientContextId => q.clientContextId
  | .maxParallelism => q.maxParallelism
  | .pipelineBatch => q.pipelineBatch
  | .pipelineCap => q.pipelineCap
  | .profile => q.profile
  | .queryContext => q.queryContext
  | .scanCap => q.scanCap
  | .scanWait => q.scanWait
  | .flexIndex => q.flexIndex
  | .preserveExpiry => q.preserveExpiry
  | .metrics => q.metrics
  | .raw => q.raw
  | .positional => q.positional
  | .named => q.named
  | .serializer => q.serializer

theorem ext_get {q next : Query} (same : ∀ p, next.get p = q.get p) : next = q := by
  have freshness : next.freshness = q.freshness :=
    Freshness.ext (same .consistency) (same .consistentWith)
  cases q
  cases next
  cases freshness
  cases same .statement
  cases same .timeout
  cases same .readOnly
  cases same .adhoc
  cases same .clientContextId
  cases same .maxParallelism
  cases same .pipelineBatch
  cases same .pipelineCap
  cases same .profile
  cases same .queryContext
  cases same .scanCap
  cases same .scanWait
  cases same .flexIndex
  cases same .preserveExpiry
  cases same .metrics
  cases same .raw
  cases same .positional
  cases same .named
  cases same .serializer
  rfl

end Query

/-- The properties that a change writes. A consistency and mutations to wait for take each other's
place. -/
def QueryChange.properties : QueryChange → List QueryProperty
  | .timeout _ => [.timeout]
  | .consistency _ | .consistentWith _ => [.consistency, .consistentWith]
  | .scanWait _ => [.scanWait]
  | .clientContextId _ => [.clientContextId]
  | .readOnly _ => [.readOnly]
  | .adhoc _ => [.adhoc]
  | .maxParallelism _ => [.maxParallelism]
  | .pipelineBatch _ => [.pipelineBatch]
  | .pipelineCap _ => [.pipelineCap]
  | .profile _ => [.profile]
  | .queryContext _ => [.queryContext]
  | .scanCap _ => [.scanCap]
  | .flexIndex _ => [.flexIndex]
  | .preserveExpiry _ => [.preserveExpiry]
  | .metrics _ => [.metrics]
  | .raw _ => [.raw]
  | .positional _ => [.positional]
  | .named _ => [.named]
  | .serializer _ => [.serializer]

namespace Query
variable {q next : Query} {c : QueryChange} {p : QueryProperty}

/-- A change leaves the other properties as they are. -/
theorem get_of_change (changed : q.change c = .ok next) (outside : p ∉ c.properties) :
    next.get p = q.get p := by
  cases c with
  | timeout | scanWait | clientContextId | consistency | consistentWith =>
    rw [change] at changed
    split at changed <;> cases changed
    cases p <;> first
      | rfl
      | exact absurd (.head _) outside
      | exact absurd (.tail _ (.head _)) outside
  | _ =>
    cases changed
    cases p <;> first
      | rfl
      | exact absurd (.head _) outside

/-- What a change writes depends on nothing but what it writes over. -/
theorem change_of_same {r : Query} (changed : q.change c = .ok next)
    (same : ∀ p ∈ c.properties, r.get p = q.get p) :
    ∃ after, r.change c = .ok after ∧ ∀ p ∈ c.properties, after.get p = next.get p := by
  cases c with
  | consistentWith state =>
    have freshness : r.freshness = q.freshness :=
      Freshness.ext (same _ (.head _)) (same _ (.tail _ (.head _)))
    rw [change] at changed ⊢
    rw [freshness]
    split at changed <;> cases changed
    exact ⟨_, rfl, by simp [QueryChange.properties, get]⟩
  | timeout | scanWait | clientContextId | consistency =>
    rw [change] at changed
    split at changed <;> cases changed
    next allowed =>
    simp only [change, allowed]
    exact ⟨_, rfl, by simp [QueryChange.properties, get]⟩
  | raw entries =>
    have raw : r.raw = q.raw := same _ (.head _)
    cases changed
    refine ⟨_, rfl, List.forall_mem_singleton.mpr ?_⟩
    simp only [get, setRaw, raw]
  | named entries =>
    have named : r.named = q.named := same _ (.head _)
    cases changed
    refine ⟨_, rfl, List.forall_mem_singleton.mpr ?_⟩
    simp only [get, setNamed, named]
  | _ =>
    cases changed
    exact ⟨_, rfl, List.forall_mem_singleton.mpr rfl⟩

end Query

/-- The changes write none of the same properties. -/
def QueryChange.Apart (c d : QueryChange) : Prop := ∀ p ∈ c.properties, p ∉ d.properties

theorem QueryChange.Apart.symm {c d : QueryChange} (h : c.Apart d) : d.Apart c :=
  fun p hd hc => h p hc hd

namespace Query
variable {q next : Query}

/-- Changes of different properties may be made in either order. -/
theorem change_change {c d : QueryChange} (apart : c.Apart d) {mid : Query}
    (first : q.change c = .ok mid) (second : mid.change d = .ok next) :
    ∃ other, q.change d = .ok other ∧ other.change c = .ok next := by
  obtain ⟨other, hd, writesD⟩ :=
    change_of_same (r := q) second fun p hp => (get_of_change first fun hc => apart p hc hp).symm
  obtain ⟨last, hc, writesC⟩ :=
    change_of_same (r := other) first fun p hp => get_of_change hd (apart p hp)
  refine ⟨other, hd, hc.trans (congrArg _ (ext_get fun p => ?_))⟩
  by_cases inC : p ∈ c.properties
  · rw [writesC p inC, get_of_change second (apart p inC)]
  · rw [get_of_change hc inC]
    by_cases inD : p ∈ d.properties
    · exact writesD p inD
    · rw [get_of_change hd inD, get_of_change second inD, get_of_change first inC]

theorem changeAll_cons_eq_ok {c : QueryChange} {cs : List QueryChange} :
    q.changeAll (c :: cs) = .ok next ↔
      ∃ mid, q.change c = .ok mid ∧ mid.changeAll cs = .ok next := by
  rw [changeAll_cons]
  cases q.change c <;> simp [Except.bind]

/-- What each change sets or leaves alone is as the last change has set it. -/
theorem view_of_changeAll {α β : Type} (view : Query → β) (sets? : QueryChange → Option α)
    (put : α → β)
    (step : ∀ {q next c}, q.change c = .ok next → view next = ((sets? c).map put).getD (view q))
    {cs : List QueryChange} (changed : q.changeAll cs = .ok next) :
    view next = ((cs.filterMap sets?).getLast?.map put).getD (view q) := by
  induction cs generalizing q with
  | nil =>
    cases changed
    rfl
  | cons c cs ih =>
    obtain ⟨mid, first, rest⟩ := changeAll_cons_eq_ok.mp changed
    rw [ih rest, step first]
    cases set : sets? c with
    | none => rw [List.filterMap_cons_none set, Option.map_none, Option.getD_none]
    | some a =>
      rw [List.filterMap_cons_some set, List.getLast?_cons]
      cases (cs.filterMap sets?).getLast? <;> rfl

/-- Changes leave a property that none of them writes as it is. -/
theorem get_of_changeAll {cs : List QueryChange} (changed : q.changeAll cs = .ok next)
    (outside : ∀ c ∈ cs, p ∉ c.properties) : next.get p = q.get p := by
  induction cs generalizing q with
  | nil =>
    cases changed
    rfl
  | cons c cs ih =>
    obtain ⟨mid, first, rest⟩ := changeAll_cons_eq_ok.mp changed
    rw [List.forall_mem_cons] at outside
    rw [ih rest outside.2, get_of_change first outside.1]

/-- Changes of different properties may be made in any order. -/
theorem changeAll_of_perm {cs ds : List QueryChange} (order : cs.Perm ds)
    (apart : cs.Pairwise QueryChange.Apart) (changed : q.changeAll cs = .ok next) :
    q.changeAll ds = .ok next := by
  induction order generalizing q with
  | nil => exact changed
  | cons c order ih =>
    obtain ⟨mid, first, rest⟩ := changeAll_cons_eq_ok.mp changed
    exact changeAll_cons_eq_ok.mpr ⟨mid, first, ih (List.pairwise_cons.mp apart).2 rest⟩
  | swap c d rest =>
    obtain ⟨mid, first, changed⟩ := changeAll_cons_eq_ok.mp changed
    obtain ⟨both, second, changed⟩ := changeAll_cons_eq_ok.mp changed
    have alone : d.Apart c := (List.pairwise_cons.mp apart).1 c (.head _)
    obtain ⟨other, first, second⟩ := change_change alone first second
    exact changeAll_cons_eq_ok.mpr ⟨other, first, changeAll_cons_eq_ok.mpr ⟨both, second, changed⟩⟩
  | trans order _ ih ih' =>
    exact ih' (order.pairwise apart QueryChange.Apart.symm) (ih apart changed)

end Query
end DocumentClient
