import DocumentClient.Proofs.Json.RoundTrip
import DocumentClient.Proofs.Query.Consistency
import DocumentClient.Proofs.Query.Properties
import Mathlib.Data.List.Nodup

/-!
# The request says all that a query says

Parameters go out as JSON text, named ones under a dollar sign, and each is read back as it was:
in its place in the list, or under its name. The settings are there exactly if they are set; the
ones for tuning are together in an object of their own, which is missing if there is none. Main
statement: `Query.request_sends`.
-/

namespace DocumentClient

/-- A value that is read back from its text: without binary64 numbers, and nested no deeper than a
reader goes. -/
structure Json.Value.Readable (v : Json.Value) : Prop where
  exact : v.Exact
  shallow : v.depth ≤ 127

theorem Json.Value.Readable.parse_print {v : Json.Value} (readable : v.Readable) :
    Json.parse v.print = .ok v :=
  Json.parse_print readable.exact readable.shallow

namespace Query
variable {q next : Query}

/-- The maps of a query are ordered by key. -/
structure MapsOrdered (q : Query) : Prop where
  raw : Keyed.Ordered q.raw
  named : Keyed.Ordered q.named

theorem MapsOrdered.change {c : QueryChange} (maps : q.MapsOrdered)
    (changed : q.change c = .ok next) : next.MapsOrdered := by
  have kept {after : Query} (raw : after.raw = q.raw) (named : after.named = q.named) :
      after.MapsOrdered := ⟨raw ▸ maps.raw, named ▸ maps.named⟩
  cases c with
  | raw entries =>
    cases changed
    refine ⟨List.foldlRecOn entries _ maps.raw ?_, maps.named⟩
    exact fun _ ordered e _ => Keyed.ordered_insert ordered e.1 e.2
  | named entries =>
    cases changed
    refine ⟨maps.raw, List.foldlRecOn entries _ maps.named ?_⟩
    exact fun _ ordered e _ => Keyed.ordered_insert ordered (parameterName e.1) e.2
  | timeout | consistency | consistentWith | scanWait | clientContextId =>
    rw [Query.change] at changed
    split at changed <;> cases changed
    exact kept rfl rfl
  | _ =>
    cases changed
    exact kept rfl rfl

theorem Built.mapsOrdered (built : q.Built) : q.MapsOrdered := by
  obtain ⟨statement, leads⟩ := built
  induction leads with
  | refl => exact ⟨List.Pairwise.nil, List.Pairwise.nil⟩
  | change _ changed ih => exact ih.change changed

theorem Leads.exists_changeAll {q next : Query} (leads : Leads q next) :
    ∃ made, q.changeAll made = .ok next := by
  induction leads with
  | refl => exact ⟨[], rfl⟩
  | @change mid next c _ changed ih =>
    obtain ⟨made, before⟩ := ih
    refine ⟨made ++ [c], ?_⟩
    rw [changeAll_append, before]
    exact (changeAll_singleton mid c).trans changed

/-- A query that waits for mutations waits for some, so they are seen in the request. -/
theorem Built.tokens_ne_nil_iff (built : q.Built) :
    q.freshness.tokens ≠ [] ↔ q.freshness.state?.isSome := by
  obtain ⟨statement, leads⟩ := built
  obtain ⟨made, changed⟩ := leads.exists_changeAll
  cases asked : q.freshness with
  | atLeast state =>
    have some : state.tokens ≠ [] := by
      apply tokens_ne_nil changed
      rw [asked]
      rfl
    simp [Freshness.tokens, MutationState.toWire, Freshness.state?, some]
  | unset | notBounded | requestPlus => simp [Freshness.tokens, Freshness.state?]

/-- The tuning options of a request carry the settings that are set, and no others. -/
structure Tunes (q : Query) (t : Wire.TuningOptions) : Prop where
  maxParallelism : t.maxParallelism = q.maxParallelism
  pipelineBatch : t.pipelineBatch = q.pipelineBatch
  pipelineCap : t.pipelineCap = q.pipelineCap
  scanWait : t.scanWaitMicros.map UInt64.toNat = q.scanWait.map Duration.micros
  scanCap : t.scanCap = q.scanCap
  metricsOff : t.disableMetrics = some true ↔ q.metrics = some false
  metricsOn : t.disableMetrics = none ↔ q.metrics ≠ some false

/-- Nothing is set that would go into the tuning options. -/
structure Untuned (q : Query) : Prop where
  maxParallelism : q.maxParallelism = none
  pipelineBatch : q.pipelineBatch = none
  pipelineCap : q.pipelineCap = none
  scanWait : q.scanWait = none
  scanCap : q.scanCap = none
  metrics : q.metrics ≠ some false

theorem ShortWait.scanWaitMicros (short : q.ShortWait) :
    ∃ wait : Option UInt64, q.scanWaitMicros = .ok wait ∧
      wait.map UInt64.toNat = q.scanWait.map Duration.micros := by
  rw [Query.scanWaitMicros]
  cases set : q.scanWait with
  | none => exact ⟨none, rfl, rfl⟩
  | some d =>
    have fits : isShortWait d = true := short d set
    have small : d.micros < 2 ^ 64 := of_decide_eq_true fits
    refine ⟨_, if_pos fits, ?_⟩
    rw [Option.map_some, Option.map_some, UInt64.toNat_ofNat_of_lt' small]

/-- The tuning options as the settings are, whether there are any or not. -/
def tuningOptions (q : Query) (wait : Option UInt64) : Wire.TuningOptions where
  maxParallelism := q.maxParallelism
  pipelineBatch := q.pipelineBatch
  pipelineCap := q.pipelineCap
  scanWaitMicros := wait
  scanCap := q.scanCap
  disableMetrics := if q.metrics = some false then some true else none

theorem tuning_eq (q : Query) (wait : Option UInt64) :
    q.tuning wait = if q.tuningOptions wait = {} then none else some (q.tuningOptions wait) := rfl

variable {wait : Option UInt64}

theorem tunes (sent : wait.map UInt64.toNat = q.scanWait.map Duration.micros) :
    q.Tunes (q.tuningOptions wait) := by
  refine ⟨rfl, rfl, rfl, sent, rfl, ?_, ?_⟩
  all_goals
    rw [tuningOptions]
    by_cases off : q.metrics = some false <;> simp [off]

theorem tuningOptions_eq_empty_iff
    (sent : wait.map UInt64.toNat = q.scanWait.map Duration.micros) :
    q.tuningOptions wait = {} ↔ q.Untuned := by
  have waits : wait = none ↔ q.scanWait = none := by
    rw [← Option.map_eq_none_iff, sent, Option.map_eq_none_iff]
  rw [tuningOptions, Wire.TuningOptions.mk.injEq, waits]
  constructor
  · rintro ⟨parallelism, batch, cap, scanWait, scanCap, metrics⟩
    refine ⟨parallelism, batch, cap, scanWait, scanCap, ?_⟩
    intro off
    rw [if_pos off] at metrics
    cases metrics
  · intro untuned
    exact ⟨untuned.maxParallelism, untuned.pipelineBatch, untuned.pipelineCap, untuned.scanWait,
      untuned.scanCap, if_neg untuned.metrics⟩

/-- The values that a query sends can be read back. -/
structure Readable (q : Query) : Prop where
  positional : ∀ v ∈ q.positional, v.Readable
  named : ∀ e ∈ q.named, e.2.Readable
  raw : ∀ e ∈ q.raw, e.2.Readable

/-- What a request says for a query. -/
structure Sends (q : Query) (request : Wire.QueryRequest) : Prop where
  statement : request.statement = q.statement
  /-- As many positional parameters, each in its place. -/
  positional : List.Forall₂ (fun text v => Json.parse text = .ok v) request.positional q.positional
  named : List.Forall₂ (fun sent e => sent.1 = "$" ++ e.1 ∧ Json.parse sent.2 = .ok e.2)
    request.named q.named
  namesDistinct : (request.named.map (·.1)).Nodup
  raw : List.Forall₂ (fun sent e => sent.1 = e.1 ∧ Json.parse sent.2 = .ok e.2)
    request.raw q.raw
  rawDistinct : (request.raw.map (·.1)).Nodup
  untuned : request.tuning = none ↔ q.Untuned
  tuned : ∀ t, request.tuning = some t → q.Tunes t
  prepared : request.prepared = q.adhoc.map (!·)
  queryContext : request.queryContext = q.queryContext
  readOnly : request.readOnly = q.readOnly
  clientContextId : request.clientContextId = q.clientContextId
  flexIndex : request.flexIndex = q.flexIndex
  preserveExpiry : request.preserveExpiry = q.preserveExpiry
  profile : request.profileMode = q.profile.map (·.toWire)
  /-- A consistency that was chosen is sent as its number. -/
  consistency : ∀ n, request.scanConsistency = some n ↔
    (n = 0 ∧ q.freshness.consistency? = some .notBounded) ∨
      (n = 1 ∧ q.freshness.consistency? = some .requestPlus)
  /-- Mutations to wait for are sent themselves, in place of a number. -/
  consistentWith : request.consistentWith = (q.freshness.state?.map (·.toWire)).getD []
  awaits : request.consistentWith ≠ [] ↔ q.freshness.state?.isSome

theorem dollar_injective : Function.Injective fun name : String => "$" ++ name :=
  fun _ _ same => String.append_right_inj "$" |>.mp same

/-- The request for any query that can be built, if its values can be read back. -/
theorem request_sends (built : q.Built) (readable : q.Readable) :
    ∃ request, q.toWire = .ok request ∧ q.Sends request := by
  obtain ⟨wait, micros, sent⟩ := built.shortWait.scanWaitMicros
  have maps := built.mapsOrdered
  have presence := tuningOptions_eq_empty_iff sent
  refine ⟨_, by rw [toWire, micros], ?_⟩
  constructor
  case statement | prepared | queryContext | readOnly | clientContextId | flexIndex |
      preserveExpiry | profile => rfl
  case positional =>
    rw [List.forall₂_map_left_iff, List.forall₂_same]
    exact fun v mem => (readable.positional v mem).parse_print
  case named =>
    rw [List.forall₂_map_left_iff, List.forall₂_same]
    exact fun e mem => ⟨rfl, (readable.named e mem).parse_print⟩
  case raw =>
    rw [List.forall₂_map_left_iff, List.forall₂_same]
    exact fun e mem => ⟨rfl, (readable.raw e mem).parse_print⟩
  case namesDistinct =>
    have distinct := List.Nodup.map dollar_injective maps.named.nodup
    rw [List.map_map] at distinct ⊢
    exact distinct
  case rawDistinct =>
    have distinct := maps.raw.nodup
    rw [List.map_map]
    exact distinct
  case untuned =>
    rw [tuning_eq]
    split
    · next empty => simp [← presence, empty]
    · next some => simp [← presence, some]
  case tuned =>
    intro t some
    dsimp only at some
    rw [tuning_eq] at some
    split at some
    · cases some
    · cases some
      exact tunes sent
  case consistency =>
    intro n
    cases q.freshness <;> simp [Freshness.toWire, Freshness.consistency?, eq_comm]
  case consistentWith =>
    cases q.freshness <;> rfl
  case awaits => exact built.tokens_ne_nil_iff

theorem request_sends_of_tuned :
    let nested : Json.Value := .array [.text "a, b]", .object [("k", .null)]]
    let changes : List QueryChange :=
      [.positional [nested, .number (.whole (-7))], .named [("$city", .text "Paris")],
        .raw [("pretty", .bool true)], .scanWait ⟨1500999⟩, .metrics false, .adhoc false]
    ∃ q : Query, changeAll { statement := "SELECT 1" } changes = .ok q ∧ q.Built ∧ q.Readable ∧
      ∃ request, q.toWire = .ok request ∧ q.Sends request := by
  intro nested changes
  let q : Query :=
    { statement := "SELECT 1", positional := [nested, .number (.whole (-7))]
      named := [("city", .text "Paris")], raw := [("pretty", .bool true)]
      scanWait := some ⟨1500999⟩, metrics := some false, adhoc := some false }
  have made : changeAll { statement := "SELECT 1" } changes = .ok q := rfl
  have built : q.Built := ⟨"SELECT 1", leads_of_changeAll made⟩
  have exact : nested.Exact := by
    refine .array (List.forall_mem_cons.mpr ⟨.text "a, b]", List.forall_mem_singleton.mpr ?_⟩)
    exact .object (by decide) (List.forall_mem_singleton.mpr .null)
  have readable : q.Readable := by
    constructor
    · refine List.forall_mem_cons.mpr ⟨⟨exact, by decide⟩, List.forall_mem_singleton.mpr ?_⟩
      exact ⟨.whole (by decide) (by decide), by decide⟩
    · exact List.forall_mem_singleton.mpr ⟨.text "Paris", by decide⟩
    · exact List.forall_mem_singleton.mpr ⟨.bool true, by decide⟩
  exact ⟨q, made, built, readable, request_sends built readable⟩

end Query
end DocumentClient
