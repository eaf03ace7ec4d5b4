import DocumentClient.Proofs.Keyed
import DocumentClient.Proofs.Query.LifeCycle
import DocumentClient.Proofs.Query.Soundness
import DocumentClient.Proofs.Requests.Preparation

/-!
# What a session sends

Whatever a caller does, one call after another and with any arguments, the peer receives only
well-formed requests. Calls that are prepared and sent at once are well formed by their
preparation. A query is prepared long before it is sent; that it stays sound until then is the
invariant of a session.
-/

namespace DocumentClient

/-- What the later peer has received beyond the earlier one is well formed. -/
def Peer.WellFormedSince (before later : Peer) : Prop :=
  ∃ sent, later.received = before.received ++ sent ∧ ∀ call ∈ sent, call.WellFormed

namespace Peer.WellFormedSince

theorem refl (peer : Peer) : peer.WellFormedSince peer := ⟨[], by simp⟩

theorem trans {a b c : Peer} (h : a.WellFormedSince b) (h' : b.WellFormedSince c) :
    a.WellFormedSince c := by
  rcases h with ⟨first, hb, hfirst⟩
  rcases h' with ⟨second, hc, hsecond⟩
  refine ⟨first ++ second, by rw [hc, hb, List.append_assoc], ?_⟩
  intro call hm
  rcases List.mem_append.mp hm with hm | hm
  · exact hfirst call hm
  · exact hsecond call hm

theorem of_receive (peer : Peer) (call : Call) (h : call.WellFormed) :
    peer.WellFormedSince (peer.receive call).2 := by
  refine ⟨[call], peer.received_receive call, ?_⟩
  intro sent hs
  exact List.mem_singleton.mp hs ▸ h

theorem of_askedOnce {run : Run} {client : Client} {peer later : Peer} (sound : run.query.Sound)
    (h : run.AskedOnce client peer later) : peer.WellFormedSince later := by
  rcases h with ⟨sent, hs, -, calls⟩
  refine ⟨sent, hs, ?_⟩
  intro call hm
  obtain ⟨request, deadline, hw, -, rfl⟩ := calls call hm
  exact sound.toWire hw

theorem of_prepared {α : Type} {m : Method} {allowed : Duration → Prop} {accepted : Prop}
    {prepared : Except Error (Exchange α)} (h : Prepares m allowed accepted prepared)
    (client : Client) (peer : Peer) :
    peer.WellFormedSince (Exchange.runPrepared prepared client peer).2 := by
  cases prepared with
  | error e => exact .refl peer
  | ok x =>
    rw [Exchange.runPrepared]
    rcases x.peer_run client peer with same | ⟨deadline, -, received⟩
    · rw [same]
      exact .refl peer
    · rw [received]
      exact of_receive peer (client.call x.method x.request deadline) (h.sound x rfl).2

end Peer.WellFormedSince

/-- What may happen in a session: a public call, a call on a prepared query with rows of any
type, a mutation that the caller keeps track of, other replies or another delay of the peer. -/
inductive SessionStep : Type 1 where
  | act (a : Action)
  | read (id : String) (call : RunCall)
  | track (a : Answer)
  | script (replies : (m : Method) → List (Except Status m.Reply)) (delay : Duration)

namespace Session

/-- Makes a call on a prepared query. -/
def readRun (s : Session) (id : String) (call : RunCall) : Session :=
  match s.query? id with
  | none => s
  | some run =>
    let (_, run, peer) := call.perform run s.client s.peer
    { s with peer }.setQuery id run

def step (s : Session) : SessionStep → Session
  | .act a => (s.perform a).2
  | .read id call => s.readRun id call
  | .track a => s.track a
  | .script replies delay => { s with peer := { s.peer with replies, delay } }

theorem snd_read {α : Type} {s : Session} {answer : α → Answer}
    {reader : Run → Client → Peer → Outcome α × Run × Peer} {call : RunCall}
    (same : ∀ run, (reader run s.client s.peer).2 = (call.perform run s.client s.peer).2)
    (id : String) : (s.read id answer reader).2 = s.readRun id call := by
  rw [Session.read, readRun]
  cases s.query? id with
  | none => rfl
  | some run => simp only [same run]

/-- The invariant of a session whose peer was `before` at first. -/
structure Sound (before : Peer) (s : Session) : Prop where
  sent : before.WellFormedSince s.peer
  queries : ∀ entry ∈ s.queries, entry.2.query.Sound

namespace Sound
variable {before : Peer} {s : Session}

theorem setQuery (h : s.Sound before) {run : Run} (sound : run.query.Sound) (id : String) :
    (s.setQuery id run).Sound before := by
  refine ⟨h.sent, ?_⟩
  intro entry he
  rcases Keyed.mem_insert he with rfl | old
  · exact sound
  · exact h.queries entry old

theorem exchange {α : Type} {m : Method} {allowed : Duration → Prop} {accepted : Prop}
    {prepared : Except Error (Exchange α)} (h : s.Sound before)
    (hp : Prepares m allowed accepted prepared) (answer : α → Answer) :
    (s.exchange answer prepared).2.Sound before :=
  ⟨h.sent.trans (.of_prepared hp s.client s.peer), h.queries⟩

theorem readRun (h : s.Sound before) (id : String) (call : RunCall) :
    (s.readRun id call).Sound before := by
  rw [Session.readRun]
  split
  · exact h
  · next run found =>
    have sound := h.queries _ (Keyed.mem_of_find? found)
    rcases hp : call.perform run s.client s.peer with ⟨answer, next, later⟩
    obtain ⟨same, asked⟩ := Run.perform_spec call hp
    have after : ({ s with peer := later } : Session).Sound before :=
      ⟨h.sent.trans (.of_askedOnce sound asked), h.queries⟩
    exact after.setQuery (same.query ▸ sound) id

theorem read {α : Type} {answer : α → Answer}
    {reader : Run → Client → Peer → Outcome α × Run × Peer} (h : s.Sound before)
    (id : String) (call : RunCall)
    (same : ∀ run, (reader run s.client s.peer).2 = (call.perform run s.client s.peer).2) :
    (s.read id answer reader).2.Sound before := by
  rw [snd_read same]
  exact h.readRun id call

theorem prepare (h : s.Sound before) (id : String) (scope : Option Scope) (statement : String)
    (input : QueryInput) : (s.perform (.query id scope statement input)).2.Sound before := by
  rw [Session.perform]
  cases hq : Query.prepare scope statement input with
  | error why =>
    simp only [orRefuse]
    exact h
  | ok q =>
    simp only [orRefuse]
    exact h.setQuery (Query.sound_of_prepare hq) id

theorem intoStream (h : s.Sound before) (id : String) :
    (s.perform (.intoStream id)).2.Sound before := by
  rw [Session.perform]
  split
  · exact h
  · next run found =>
    have sound := h.queries _ (Keyed.mem_of_find? found)
    obtain ⟨result, next, later, he, -, asked⟩ := run.ensureStarted_spec s.client s.peer
    have streamed : ∃ xs, run.intoStream s.client s.peer = (xs, later) := by
      rw [Run.intoStream, he]
      cases result <;> exact ⟨_, rfl⟩
    obtain ⟨xs, hx⟩ := streamed
    rw [hx]
    refine ⟨h.sent.trans (.of_askedOnce sound asked), ?_⟩
    intro entry kept
    exact h.queries entry (List.mem_filter.mp kept).1

theorem perform (h : s.Sound before) (a : Action) : (s.perform a).2.Sound before := by
  cases a with
  | get c key options => exact h.exchange Collection.get_prepares _
  | probe c key options => exact h.exchange Collection.probe_prepares _
  | insert c key doc options => exact h.exchange Collection.insert_prepares _
  | upsert c key doc options => exact h.exchange Collection.upsert_prepares _
  | replace c key doc options => exact h.exchange Collection.replace_prepares _
  | remove c key options => exact h.exchange Collection.remove_prepares _
  | lookupIn c key specs options => exact h.exchange Collection.lookupIn_prepares _
  | mutateIn c key specs options => exact h.exchange Collection.mutateIn_prepares _
  | createBucket settings options => exact h.exchange BucketManager.create_prepares _
  | updateBucket settings options => exact h.exchange BucketManager.update_prepares _
  | dropBucket name options => exact h.exchange BucketManager.drop_prepares _
  | getBucket name options => exact h.exchange BucketManager.get_prepares _
  | getAllBuckets options => exact h.exchange BucketManager.getAll_prepares _
  | query id scope statement input => exact h.prepare id scope statement input
  | nextRow id => exact h.read id .nextRow fun _ => rfl
  | nextRowAs id shape => exact h.read id (.nextRowAs _) fun _ => rfl
  | execute id => exact h.read id .execute fun _ => rfl
  | executeAs id shape => exact h.read id (.executeAs _) fun _ => rfl
  | intoStream id => exact h.intoStream id

theorem step (h : s.Sound before) (x : SessionStep) : (s.step x).Sound before := by
  cases x with
  | act a => exact h.perform a
  | read id call => exact h.readRun id call
  | track a => exact ⟨h.sent, h.queries⟩
  | script replies delay => exact ⟨h.sent, h.queries⟩

end Sound

/-- Whatever happens in a session, the peer receives well-formed requests only. -/
theorem received_wellFormed (client : Client) (peer : Peer) (steps : List SessionStep) :
    let s := steps.foldl step { client, peer }
    ∃ sent, s.peer.received = peer.received ++ sent ∧ ∀ call ∈ sent, call.WellFormed := by
  have start : ({ client, peer } : Session).Sound peer := ⟨.refl peer, List.forall_mem_nil _⟩
  have sound (s : Session) (h : s.Sound peer) : (steps.foldl step s).Sound peer := by
    induction steps generalizing s with
    | nil => exact h
    | cons x rest ih => exact ih (s.step x) (h.step x)
  change peer.WellFormedSince (steps.foldl step { client, peer }).peer
  exact (sound { client, peer } start).sent

end Session
end DocumentClient
