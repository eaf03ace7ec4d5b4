import DocumentClient.Proofs.Connection.Deadline
import DocumentClient.Proofs.Service.Interleaving
import DocumentClient.Proofs.Session.OptionFields
import DocumentClient.Proofs.Session.Requests

/-!
# Deadlines that a peer is told

A call is limited by its own timeout, or else by the one that is configured for its service:
documents, buckets and queries each have theirs. The limit of a query is settled when the query is
prepared and stays with it; that is the invariant of a session here. A script that receives the
calls notes the time that the header of each one states. Main statement:
`Session.deadlines_announced`, for every call that a peer receives in any session.
-/

namespace DocumentClient

/-- A script that receives the call notes for it a time that is announced for the limit. -/
def Call.Announces (call : Call) (limit : Duration) : Prop :=
  ∃ announced, limit.Announced announced ∧ ∀ script : Script,
    (script.receive call).2.calls = script.calls ++ [⟨call.method.name, some announced⟩]

/-- A header that is written for a limit announces it, so that the limit is not too long. -/
theorem Call.announces_of_header {call : Call} {limit : Duration} {header : String}
    (written : Deadline.header? limit = some header) (stated : call.deadline = some header) :
    limit.hours ≤ Deadline.maxAmount ∧ call.Announces limit := by
  have short : limit.hours ≤ Deadline.maxAmount := by
    rw [← Deadline.header?_isSome_iff, written]
    rfl
  obtain ⟨own, announced, same, read, close⟩ := Deadline.read_header short
  obtain rfl := Option.some.inj (written.symm.trans same)
  refine ⟨short, announced, close, ?_⟩
  intro script
  rw [(script.handles_receive call).noted, RecordedCall.of, stated, Option.bind_some, read]
  rfl

/-- The prepared query that a step reads from. -/
def SessionStep.reads? : SessionStep → Option String
  | .act (.nextRow id) | .act (.nextRowAs id _) | .act (.execute id) | .act (.executeAs id _)
  | .act (.intoStream id) | .read id _ => some id
  | _ => none

/-- The time for the call of a step: a timeout of its own, or else the one of its service. -/
inductive SessionStep.Limits (s : Session) : SessionStep → Duration → Prop where
  | call {a : Action} {limit : Duration} (limits : a.Limits s.configuration limit) :
      Limits s (.act a) limit
  | query {x : SessionStep} {id : String} {run : Run} (own : x.reads? = some id)
      (prepared : s.query? id = some run) :
      Limits s x (run.query.timeout.getD s.configuration.queryTimeout)

/-- The later peer has received at most one call more, with the header of an allowed limit. -/
def Peer.ToldOnce (allowed : Duration → Prop) (before later : Peer) : Prop :=
  ∃ sent, later.received = before.received ++ sent ∧ sent.length ≤ 1 ∧
    ∀ call ∈ sent, ∃ limit header, allowed limit ∧ Deadline.header? limit = some header ∧
      call.deadline = some header

namespace Peer.ToldOnce
variable {allowed : Duration → Prop}

theorem refl (peer : Peer) : peer.ToldOnce allowed peer := ⟨[], by simp⟩

theorem imp {before later : Peer} {other : Duration → Prop} (h : before.ToldOnce allowed later)
    (weaker : ∀ limit, allowed limit → other limit) : before.ToldOnce other later := by
  obtain ⟨sent, received, once, calls⟩ := h
  refine ⟨sent, received, once, ?_⟩
  intro call told
  obtain ⟨limit, header, allows, stated⟩ := calls call told
  exact ⟨limit, header, weaker limit allows, stated⟩

theorem of_askedOnce {run : Run} {client : Client} {peer later : Peer} (h : allowed run.limit)
    (asked : run.AskedOnce client peer later) : peer.ToldOnce allowed later := by
  obtain ⟨sent, received, once, calls⟩ := asked
  refine ⟨sent, received, once, ?_⟩
  intro call told
  obtain ⟨request, header, -, written, rfl⟩ := calls call told
  exact ⟨run.limit, header, h, written, rfl⟩

theorem of_prepared {α : Type} {m : Method} {accepted : Prop}
    {prepared : Except Error (Exchange α)} (h : Prepares m allowed accepted prepared)
    (client : Client) (peer : Peer) :
    peer.ToldOnce allowed (Exchange.runPrepared prepared client peer).2 := by
  cases prepared with
  | error e => exact refl peer
  | ok x =>
    rw [Exchange.runPrepared]
    rcases x.peer_run client peer with same | ⟨header, written, received⟩
    · rw [same]
      exact refl peer
    · rw [received]
      refine ⟨[client.call x.method x.request header], peer.received_receive _, Nat.le_refl _, ?_⟩
      intro call told
      obtain rfl := List.mem_singleton.mp told
      exact ⟨x.limit, header, h.limited x rfl, written, rfl⟩

end Peer.ToldOnce

namespace Session
variable {s : Session}

/-- The limit of every prepared query is its timeout, or else the configured one. -/
def Timed (s : Session) : Prop :=
  ∀ entry ∈ s.queries,
    entry.2.limit = entry.2.query.timeout.getD s.configuration.queryTimeout

theorem told_exchange {α : Type} {m : Method} {allowed limits : Duration → Prop} {accepted : Prop}
    {prepared : Except Error (Exchange α)} (h : Prepares m allowed accepted prepared)
    (own : ∀ limit, allowed limit → limits limit) (answer : α → Answer) :
    s.peer.ToldOnce limits (s.exchange answer prepared).2.peer := by
  rw [peer_exchange]
  exact (Peer.ToldOnce.of_prepared h s.client s.peer).imp own

theorem told_call {a : Action} {m : Method} (own : a.method? = some m) :
    s.peer.ToldOnce (a.Limits s.configuration) (s.perform a).2.peer := by
  cases a with
  | get => exact told_exchange Collection.get_prepares (fun _ => .document rfl) _
  | probe => exact told_exchange Collection.probe_prepares (fun _ => .document rfl) _
  | insert => exact told_exchange Collection.insert_prepares (fun _ => .document rfl) _
  | upsert => exact told_exchange Collection.upsert_prepares (fun _ => .document rfl) _
  | replace => exact told_exchange Collection.replace_prepares (fun _ => .document rfl) _
  | remove => exact told_exchange Collection.remove_prepares (fun _ => .document rfl) _
  | lookupIn => exact told_exchange Collection.lookupIn_prepares (fun _ => .document rfl) _
  | mutateIn => exact told_exchange Collection.mutateIn_prepares (fun _ => .document rfl) _
  | createBucket => exact told_exchange BucketManager.create_prepares (fun _ => .buckets rfl) _
  | updateBucket => exact told_exchange BucketManager.update_prepares (fun _ => .buckets rfl) _
  | dropBucket => exact told_exchange BucketManager.drop_prepares (fun _ => .buckets rfl) _
  | getBucket => exact told_exchange BucketManager.get_prepares (fun _ => .buckets rfl) _
  | getAllBuckets => exact told_exchange BucketManager.getAll_prepares (fun _ => .buckets rfl) _
  | query | nextRow | nextRowAs | execute | executeAs | intoStream => cases own

/-- What a reading step tells the peer is settled by the query that it reads. -/
theorem told_readRun (timed : s.Timed) {x : SessionStep} {id : String} (own : x.reads? = some id)
    (call : RunCall) : s.peer.ToldOnce (x.Limits s) (s.readRun id call).peer := by
  rw [readRun]
  cases found : s.query? id with
  | none => exact .refl s.peer
  | some run =>
    rcases hp : call.perform run s.client s.peer with ⟨answer, next, later⟩
    obtain ⟨-, asked⟩ := Run.perform_spec call hp
    have limits := SessionStep.Limits.query own found
    rw [← timed _ (Keyed.mem_of_find? found)] at limits
    simp only [hp]
    exact .of_askedOnce limits asked

theorem told_read {α : Type} {answer : α → Answer}
    {reader : Run → Client → Peer → Outcome α × Run × Peer} (timed : s.Timed)
    {x : SessionStep} {id : String} (own : x.reads? = some id) (call : RunCall)
    (same : ∀ run, (reader run s.client s.peer).2 = (call.perform run s.client s.peer).2) :
    s.peer.ToldOnce (x.Limits s) (s.read id answer reader).2.peer := by
  rw [snd_read same]
  exact told_readRun timed own call

theorem told_intoStream (timed : s.Timed) (id : String) :
    s.peer.ToldOnce ((SessionStep.act (.intoStream id)).Limits s)
      (s.perform (.intoStream id)).2.peer := by
  rw [perform]
  cases found : s.query? id with
  | none => exact .refl s.peer
  | some run =>
    obtain ⟨result, next, later, he, -, asked⟩ := run.ensureStarted_spec s.client s.peer
    have told : (run.intoStream s.client s.peer).2 = later := by
      rw [Run.intoStream, he]
      cases result <;> rfl
    have limits := SessionStep.Limits.query (x := .act (.intoStream id)) rfl found
    rw [← timed _ (Keyed.mem_of_find? found)] at limits
    simp only [dropQuery, told]
    exact .of_askedOnce limits asked

theorem peer_query (id : String) (scope : Option Scope) (statement : String)
    (input : QueryInput) : (s.perform (.query id scope statement input)).2.peer = s.peer := by
  rw [perform]
  split <;> rfl

theorem told_perform (timed : s.Timed) (a : Action) :
    s.peer.ToldOnce ((SessionStep.act a).Limits s) (s.perform a).2.peer := by
  cases a with
  | get | probe | insert | upsert | replace | remove | lookupIn | mutateIn | createBucket
  | updateBucket | dropBucket | getBucket | getAllBuckets =>
    exact (told_call rfl).imp fun _ => .call
  | query id scope statement input =>
    rw [peer_query]
    exact .refl s.peer
  | nextRow id => exact told_read timed rfl .nextRow fun _ => rfl
  | nextRowAs id shape => exact told_read timed rfl (.nextRowAs _) fun _ => rfl
  | execute id => exact told_read timed rfl .execute fun _ => rfl
  | executeAs id shape => exact told_read timed rfl (.executeAs _) fun _ => rfl
  | intoStream id => exact told_intoStream timed id

theorem told_step (timed : s.Timed) (x : SessionStep) :
    s.peer.ToldOnce (x.Limits s) (s.step x).peer := by
  cases x with
  | act a => exact told_perform timed a
  | read id call => exact told_readRun timed rfl call
  | track a => exact .refl s.peer
  | script replies delay => exact .refl s.peer

/-- Where a prepared query comes from: it is one of before, which may have been read since, or a
new one. -/
inductive Arises (s : Session) (entry : String × Run) : Prop where
  | continued {run : Run} (old : (entry.1, run) ∈ s.queries) (same : run.Continues entry.2)
  | prepared (q : Query) (fresh : entry.2 = Run.ofQuery s.configuration q)

structure Follows (s next : Session) : Prop where
  client : next.client = s.client
  queries : ∀ entry ∈ next.queries, s.Arises entry

namespace Follows

theorem of_kept {next : Session} (client : next.client = s.client)
    (kept : ∀ entry ∈ next.queries, entry ∈ s.queries) : s.Follows next :=
  ⟨client, fun entry given => .continued (kept entry given) (.refl entry.2)⟩

theorem refl (s : Session) : s.Follows s := .of_kept rfl fun _ given => given

theorem of_setQuery {run : Run} {id : String} (arises : s.Arises (id, run)) (peer : Peer) :
    s.Follows ({ s with peer }.setQuery id run) := by
  refine ⟨rfl, ?_⟩
  intro entry given
  rcases Keyed.mem_insert given with rfl | old
  · exact arises
  · exact .continued old (.refl entry.2)

theorem of_exchange {α : Type} (answer : α → Answer) (prepared : Except Error (Exchange α)) :
    s.Follows (s.exchange answer prepared).2 := by
  rw [exchange]
  exact .of_kept rfl fun _ given => given

theorem of_readRun (id : String) (call : RunCall) : s.Follows (s.readRun id call) := by
  rw [readRun]
  cases found : s.query? id with
  | none => exact .refl s
  | some run =>
    rcases hp : call.perform run s.client s.peer with ⟨answer, next, later⟩
    obtain ⟨same, -⟩ := Run.perform_spec call hp
    simp only [hp]
    exact .of_setQuery (.continued (Keyed.mem_of_find? found) same) later

theorem of_read {α : Type} {answer : α → Answer}
    {reader : Run → Client → Peer → Outcome α × Run × Peer} (id : String) (call : RunCall)
    (same : ∀ run, (reader run s.client s.peer).2 = (call.perform run s.client s.peer).2) :
    s.Follows (s.read id answer reader).2 := by
  rw [snd_read same]
  exact .of_readRun id call

theorem of_perform (a : Action) : s.Follows (s.perform a).2 := by
  cases a with
  | query id scope statement input =>
    rw [perform]
    split
    · exact .refl s
    · exact .of_setQuery (.prepared _ rfl) s.peer
  | nextRow id => exact .of_read id .nextRow fun _ => rfl
  | nextRowAs id shape => exact .of_read id (.nextRowAs _) fun _ => rfl
  | execute id => exact .of_read id .execute fun _ => rfl
  | executeAs id shape => exact .of_read id (.executeAs _) fun _ => rfl
  | intoStream id =>
    rw [perform]
    split
    · exact .refl s
    · exact .of_kept rfl fun _ given => (List.mem_filter.mp given).1
  | _ => exact .of_exchange _ _

theorem of_step (s : Session) (x : SessionStep) : s.Follows (s.step x) := by
  cases x with
  | act a => exact .of_perform a
  | read id call => exact .of_readRun id call
  | track a => exact .of_kept rfl fun _ given => given
  | script replies delay => exact .of_kept rfl fun _ given => given

end Follows

/-- A prepared query keeps its limit while it is read, and a new one has its own. -/
theorem Timed.of_follows {next : Session} (timed : s.Timed) (h : s.Follows next) : next.Timed := by
  intro entry given
  have configuration : next.configuration = s.configuration :=
    congrArg Client.configuration h.client
  rw [configuration]
  cases h.queries entry given with
  | continued old same =>
    rw [same.limit, same.query]
    exact timed _ old
  | prepared q fresh =>
    rw [fresh]
    rfl

theorem Timed.foldl (timed : s.Timed) (steps : List SessionStep) : (steps.foldl step s).Timed := by
  induction steps generalizing s with
  | nil => exact timed
  | cons x rest ih => exact ih (timed.of_follows (.of_step s x))

/-- The header of a time of at most 99999999 hours is read as a time that is announced for it. And
whatever happens in a session, a step makes at most one call, and the time noted for that is one
announced for the timeout of the call or else for the one of its service. A longer timeout is never
announced: no call is sent. -/
theorem deadlines_announced :
    (∀ d : Duration, d.hours ≤ Deadline.maxAmount →
      ∃ header announced, Deadline.header? d = some header ∧
        Deadline.read header = .ok (some announced) ∧ d.Announced announced) ∧
    ∀ (client : Client) (peer : Peer) (before : List SessionStep) (x : SessionStep),
      let s := before.foldl step { client, peer }
      ∃ sent, (s.step x).peer.received = s.peer.received ++ sent ∧ sent.length ≤ 1 ∧
        ∀ call ∈ sent, ∃ limit, x.Limits s limit ∧
          limit.hours ≤ Deadline.maxAmount ∧ call.Announces limit := by
  refine ⟨fun d short => Deadline.read_header short, ?_⟩
  intro client peer before x
  have start : ({ client, peer } : Session).Timed := List.forall_mem_nil _
  obtain ⟨sent, received, once, told⟩ := told_step (start.foldl before) x
  refine ⟨sent, received, once, ?_⟩
  intro call asked
  obtain ⟨limit, header, limits, written, stated⟩ := told call asked
  exact ⟨limit, limits, Call.announces_of_header written stated⟩

theorem deadlines_announced_of_get :
    let d : Duration := ⟨123456789⟩
    let options : CallOptions := { timeout := some (.ofMillis 20) }
    let a : Action := .get { keyspace := ⟨"travel", "_default", "hotels"⟩ } "k" options
    let s : Session := { client := { configuration := {} } }
    (Deadline.header? d = some "123456u" ∧ d.Announced ⟨123456000⟩) ∧
      ∃ call, (s.perform a).2.peer.received = [call] ∧ ∀ script : Script,
        (script.receive call).2.calls = script.calls ++ [⟨"get", some (.ofMillis 20)⟩] := by
  intro d options a s
  constructor
  · obtain ⟨header, announced, written, read, close⟩ := deadlines_announced.1 d (by decide)
    have text : Deadline.header? d = some "123456u" := by decide +kernel
    obtain rfl := Option.some.inj (text.symm.trans written)
    have stated : Deadline.read "123456u" = .ok (some ⟨123456000⟩) := by decide +kernel
    rw [stated] at read
    cases read
    exact ⟨text, close⟩
  · have starts : Operation.get.Starts "k" options := ⟨by decide, _, rfl⟩
    have short (limit : Duration) (limits : options.Limits .get s.configuration.kvTimeout limit) :
        limit = .ofMillis 20 := by
      obtain ⟨fields, resolved, rfl⟩ := limits
      cases resolved
      rfl
    obtain ⟨call, method, sent⟩ := (sendsOne_of_accepted (s := s) Collection.get_prepares .got rfl
      starts fun limit limits => short limit limits ▸ by decide).sent
    obtain ⟨received, same, -, told⟩ := deadlines_announced.2 s.client s.peer [] (.act a)
    obtain rfl := List.append_cancel_left (sent.symm.trans same)
    obtain ⟨limit, limits, -, announces⟩ := told call (List.mem_singleton_self call)
    cases limits with
    | call limits =>
      cases limits with
      | document own limits =>
        cases own
        obtain rfl := short limit limits
        obtain ⟨announced, close, noted⟩ := announces
        obtain rfl := close.exact_of_le (by decide)
        have name : call.method.name = "get" := congrArg Method.name method
        rw [name] at noted
        exact ⟨call, sent, noted⟩
      | buckets own => cases own
    | query own => cases own

end Session
end DocumentClient
