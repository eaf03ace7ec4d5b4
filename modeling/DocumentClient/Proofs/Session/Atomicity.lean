import DocumentClient.Proofs.Options.Times
import DocumentClient.Proofs.Requests.Preparation

/-!
# Calls have one effect or none

A call on documents or buckets that is refused on this side leaves the session and its peer as
they were. One that is not sends a single call of its own method and takes a single reply of
that method, whatever becomes of the reply. There is one exception: a limit that is too long for a
header passes every check, and then the program breaks down before anything is sent, so that the
caller gets neither a result nor an error. Calls on queries are not of this kind: they are prepared,
sent and read at different times. Main statement: `Session.perform_atomic`.
-/

namespace DocumentClient

/-- The method of a call that is prepared and sent at once. -/
def Action.method? : Action → Option Method
  | .get .. => some .get
  | .probe .. => some .probe
  | .insert .. => some .insert
  | .upsert .. => some .upsert
  | .replace .. => some .replace
  | .remove .. => some .remove
  | .lookupIn .. => some .lookupIn
  | .mutateIn .. => some .mutateIn
  | .createBucket .. => some .createBucket
  | .updateBucket .. => some .updateBucket
  | .dropBucket .. => some .deleteBucket
  | .getBucket .. | .getAllBuckets .. => some .listBuckets
  | .query .. | .nextRow .. | .nextRowAs .. | .execute .. | .executeAs .. | .intoStream .. => none

/-- The arguments that pass every check on this side. -/
def Action.Accepted (configuration : Configuration) : Action → Prop
  | .get _ key options => Operation.get.Starts key options
  | .probe _ key options => Operation.probe.Starts key options
  | .insert c key doc options =>
    Operation.insert.Starts key options ∧ (c.transcoderFor configuration options).Takes doc
  | .upsert c key doc options =>
    Operation.upsert.Starts key options ∧ (c.transcoderFor configuration options).Takes doc
  | .replace c key doc options =>
    Operation.replace.Starts key options ∧ (c.transcoderFor configuration options).Takes doc
  | .remove _ key options => Operation.remove.Starts key options
  | .lookupIn _ key specs options => Operation.lookupIn.Starts key options ∧ specs ≠ []
  | .mutateIn _ key specs options =>
    Operation.mutateIn.Starts key options ∧
      specs ≠ [] ∧ ∀ spec ∈ specs, ∃ content, spec.content = .ok content
  | .createBucket settings options | .updateBucket settings options =>
    settings.validate = .ok () ∧ options.Resolves .management
  | .dropBucket name options | .getBucket name options =>
    ValidBucketName name ∧ options.Resolves .management
  | .getAllBuckets options => options.Resolves .management
  | .query .. | .nextRow .. | .nextRowAs .. | .execute .. | .executeAs .. | .intoStream .. => False

/-- The operation of a call on a document, with its options. -/
def Action.options? : Action → Option (Operation × CallOptions)
  | .get _ _ options => some (.get, options)
  | .probe _ _ options => some (.probe, options)
  | .insert _ _ _ options => some (.insert, options)
  | .upsert _ _ _ options => some (.upsert, options)
  | .replace _ _ _ options => some (.replace, options)
  | .remove _ _ options => some (.remove, options)
  | .lookupIn _ _ _ options => some (.lookupIn, options)
  | .mutateIn _ _ _ options => some (.mutateIn, options)
  | .createBucket .. | .updateBucket .. | .dropBucket .. | .getBucket .. | .getAllBuckets ..
  | .query .. | .nextRow .. | .nextRowAs .. | .execute .. | .executeAs .. | .intoStream .. => none

/-- The options of a call on buckets. -/
def Action.management? : Action → Option CallOptions
  | .createBucket _ options | .updateBucket _ options | .dropBucket _ options
  | .getBucket _ options | .getAllBuckets options => some options
  | .get .. | .probe .. | .insert .. | .upsert .. | .replace .. | .remove .. | .lookupIn ..
  | .mutateIn .. | .query .. | .nextRow .. | .nextRowAs .. | .execute .. | .executeAs ..
  | .intoStream .. => none

/-- The time for a call: its own timeout, or else the one that is configured for its service. -/
inductive Action.Limits (configuration : Configuration) : Action → Duration → Prop where
  | document {a : Action} {operation : Operation} {options : CallOptions} {limit : Duration}
    (own : a.options? = some (operation, options))
    (limits : options.Limits operation configuration.kvTimeout limit) :
    Limits configuration a limit
  | buckets {a : Action} {options : CallOptions} {limit : Duration}
    (own : a.management? = some options)
    (limits : options.Limits .management configuration.managementTimeout limit) :
    Limits configuration a limit

/-- A method without a reply is unavailable. -/
theorem Peer.kind_noReply (m : Method) : (Error.ofStatus (noReply m)).kind = .unavailable := rfl

namespace Session

/-- A refusal on this side: the session stays as it is, with its peer. -/
def Refuses (s : Session) (a : Action) : Prop := ∃ e, s.perform a = (.failed e, s)

/-- One call of a method with its one reply, and nothing else. -/
structure SendsOne (m : Method) (s : Session) (answer : Answer) (next : Session) : Prop where
  sent : ∃ call, call.method = m ∧ next.peer.received = s.peer.received ++ [call]
  taken : next.peer.replies m = (s.peer.replies m).tail
  others : ∀ other, other ≠ m → next.peer.replies other = s.peer.replies other
  rest : next = { s with peer := next.peer } ∧ next.peer.delay = s.peer.delay
  unanswered : s.peer.replies m = [] →
    answer = .failed (.ofStatus (Peer.noReply m)) ∧
      (Error.ofStatus (Peer.noReply m)).kind = .unavailable

section
variable {s : Session} {α : Type} {m : Method} {allowed : Duration → Prop} {accepted : Prop}
  {prepared : Except Error (Exchange α)}

theorem exchange_of_refused (h : Prepares m allowed accepted prepared) (answer : α → Answer)
    (refused : ¬ accepted) : ∃ e, s.exchange answer prepared = (.failed e, s) := by
  cases prepared with
  | ok x => exact absurd (h.accepts.mp ⟨x, rfl⟩) refused
  | error e => exact ⟨e, rfl⟩

/-- A prepared call that has a header for its limit. -/
theorem sendsOne_exchange {x : Exchange α} (method : x.method = m) (answer : α → Answer)
    (undelayed : s.peer.delay = .zero) (short : x.limit.hours ≤ Deadline.maxAmount) :
    SendsOne m s (s.exchange answer (.ok x)).1 (s.exchange answer (.ok x)).2 := by
  subst method
  obtain ⟨deadline, stated⟩ :=
    Option.isSome_iff_exists.mp ((Deadline.header?_isSome_iff x.limit).mpr short)
  have inTime := s.peer.inTime_of_undelayed undelayed x.limit
  have ran := x.run_of_inTime s.client s.peer stated inTime
  rw [exchange, Exchange.runPrepared, ran]
  let call := s.client.call x.method x.request deadline
  constructor
  · exact ⟨call, rfl, s.peer.received_receive _⟩
  · exact s.peer.replies_receive_own call
  · intro other distinct
    exact s.peer.replies_receive_other _ distinct
  · exact ⟨rfl, s.peer.delay_receive _⟩
  · intro empty
    constructor
    · rw [s.peer.answer_receive_of_empty call empty]
      rfl
    · exact Peer.kind_noReply _

/-- A prepared call that has none. -/
theorem exchange_of_long {x : Exchange α} (answer : α → Answer)
    (long : Deadline.maxAmount < x.limit.hours) : s.exchange answer (.ok x) = (.crashed, s) := by
  have unstated : Deadline.header? x.limit = none := by
    rw [← Option.not_isSome_iff_eq_none, Deadline.header?_isSome_iff]
    exact Nat.not_le.mpr long
  rw [exchange, Exchange.runPrepared, x.run_of_unstated s.client s.peer unstated]
  rfl

/-- Whether a prepared call goes out is decided by the checks and the length of its limit. -/
theorem exchange_atomic {limits : Duration → Prop} (h : Prepares m allowed accepted prepared)
    (own : ∀ limit, allowed limit → limits limit) (answer : α → Answer)
    (undelayed : s.peer.delay = .zero) :
    (¬ accepted → ∃ e, s.exchange answer prepared = (.failed e, s)) ∧
      (accepted → ∃ limit, limits limit ∧
        (limit.hours ≤ Deadline.maxAmount →
          SendsOne m s (s.exchange answer prepared).1 (s.exchange answer prepared).2) ∧
        (Deadline.maxAmount < limit.hours → s.exchange answer prepared = (.crashed, s))) := by
  refine ⟨exchange_of_refused h answer, fun passed => ?_⟩
  obtain ⟨x, rfl⟩ := h.accepts.mpr passed
  exact ⟨x.limit, own _ (h.limited x rfl), sendsOne_exchange (h.sound x rfl).1 answer undelayed,
    exchange_of_long answer⟩

theorem sendsOne_of_accepted (h : Prepares m allowed accepted prepared) (answer : α → Answer)
    (undelayed : s.peer.delay = .zero) (passed : accepted)
    (short : ∀ limit, allowed limit → limit.hours ≤ Deadline.maxAmount) :
    SendsOne m s (s.exchange answer prepared).1 (s.exchange answer prepared).2 := by
  obtain ⟨limit, allows, sends, -⟩ := (exchange_atomic h short answer undelayed).2 passed
  exact sends allows

end

/-- A call on documents or buckets has no effect if one of its arguments fails a check. Otherwise it
sends one call and takes one reply, even one that then cannot be read, if its limit has at most
99999999 whole hours; with a longer limit the program breaks down and nothing is sent. -/
theorem perform_atomic (s : Session) (a : Action) {m : Method} (own : a.method? = some m)
    (undelayed : s.peer.delay = .zero) :
    (¬ a.Accepted s.configuration → s.Refuses a) ∧
      (a.Accepted s.configuration → ∃ limit, a.Limits s.configuration limit ∧
        (limit.hours ≤ Deadline.maxAmount → SendsOne m s (s.perform a).1 (s.perform a).2) ∧
        (Deadline.maxAmount < limit.hours → s.perform a = (.crashed, s))) := by
  cases a with
  | get c key options =>
    cases own
    exact exchange_atomic Collection.get_prepares (fun _ => .document rfl) _ undelayed
  | probe c key options =>
    cases own
    exact exchange_atomic Collection.probe_prepares (fun _ => .document rfl) _ undelayed
  | insert c key doc options =>
    cases own
    exact exchange_atomic Collection.insert_prepares (fun _ => .document rfl) _ undelayed
  | upsert c key doc options =>
    cases own
    exact exchange_atomic Collection.upsert_prepares (fun _ => .document rfl) _ undelayed
  | replace c key doc options =>
    cases own
    exact exchange_atomic Collection.replace_prepares (fun _ => .document rfl) _ undelayed
  | remove c key options =>
    cases own
    exact exchange_atomic Collection.remove_prepares (fun _ => .document rfl) _ undelayed
  | lookupIn c key specs options =>
    cases own
    exact exchange_atomic Collection.lookupIn_prepares (fun _ => .document rfl) _ undelayed
  | mutateIn c key specs options =>
    cases own
    exact exchange_atomic Collection.mutateIn_prepares (fun _ => .document rfl) _ undelayed
  | createBucket settings options =>
    cases own
    exact exchange_atomic BucketManager.create_prepares (fun _ => .buckets rfl) _ undelayed
  | updateBucket settings options =>
    cases own
    exact exchange_atomic BucketManager.update_prepares (fun _ => .buckets rfl) _ undelayed
  | dropBucket name options =>
    cases own
    exact exchange_atomic BucketManager.drop_prepares (fun _ => .buckets rfl) _ undelayed
  | getBucket name options =>
    cases own
    exact exchange_atomic BucketManager.get_prepares (fun _ => .buckets rfl) _ undelayed
  | getAllBuckets options =>
    cases own
    exact exchange_atomic BucketManager.getAll_prepares (fun _ => .buckets rfl) _ undelayed
  | query | nextRow | nextRowAs | execute | executeAs | intoStream => cases own

theorem perform_atomic_of_unreadable_reply :
    let peer := Peer.setReplies {} .get [.ok { content := ⟨[91], 1, 0⟩ }]
    let s : Session := { client := { configuration := {} }, peer }
    let c : Collection := { keyspace := ⟨"travel", "_default", "hotels"⟩ }
    s.peer.delay = .zero ∧
      s.Refuses (.get c "" {}) ∧
      (s.perform (.get c "k" {})).1 = .failed (.content (.json ⟨.endInList, some ⟨1, 1⟩⟩)) ∧
      SendsOne .get s (s.perform (.get c "k" {})).1 (s.perform (.get c "k" {})).2 := by
  intro peer s c
  have answered : (s.perform (.get c "k" {})).1 =
      .failed (.content (.json ⟨.endInList, some ⟨1, 1⟩⟩)) := by
    simp only [s, peer, c]
    rfl
  have accepted : (Action.get c "k" {}).Accepted s.configuration := ⟨by decide, _, rfl⟩
  obtain ⟨limit, limits, sends, -⟩ := (perform_atomic s (.get c "k" {}) rfl rfl).2 accepted
  refine ⟨rfl, ?_, answered, sends ?_⟩
  · exact (perform_atomic s (.get c "" {}) rfl rfl).1 fun accepted =>
      absurd accepted.1 (by decide)
  · cases limits with
    | document own limits =>
      cases own
      obtain ⟨fields, resolved, rfl⟩ := limits
      cases resolved
      decide
    | buckets own => cases own

/-- A timeout of a hundred million hours passes every check, and then there is neither an error nor
a call. -/
theorem perform_crashes_of_long_timeout :
    let peer := Peer.setReplies {} .get [.ok { content := ⟨[49], 1, 0⟩ }]
    let s : Session := { client := { configuration := {} }, peer }
    let a : Action := .get { keyspace := ⟨"travel", "_default", "hotels"⟩ } "k"
      { timeout := some (.ofSeconds 360000000000) }
    a.Accepted s.configuration ∧ s.perform a = (.crashed, s) ∧ ¬ s.Refuses a ∧
      ¬ SendsOne .get s (s.perform a).1 (s.perform a).2 := by
  refine ⟨⟨by decide, _, rfl⟩, rfl, ?_, ?_⟩
  · rintro ⟨e, failed⟩
    cases failed
  · intro sends
    obtain ⟨call, -, received⟩ := sends.sent
    cases received

end Session
end DocumentClient
