import DocumentClient.Service.Exchange
import DocumentClient.Service.Script

/-!
# Calls of many clients against one script

Every push of a reply and every call is one step, whoever takes it, and steps of different clients
may follow each other in any order; a call that breaks down on its client's side is a step without
effect. One lemma says all that a call does to the script: it takes the first reply of its own
queue, adds to its own log and is noted once, and no other queue or log changes. What holds after
any steps follows from this step by step: what has been scripted for a method
is what its calls were handed, in order, followed by what still waits. Main statement:
`Script.calls_interleave`.

The peer of a session, whose replies are one function of the method and whose calls are one list,
gives the same answers and shows the same queues and logs.
-/

namespace DocumentClient

theorem filterMap_cons_toList {α β : Type} (f : α → Option β) (a : α) (rest : List α) :
    (a :: rest).filterMap f = (f a).toList ++ rest.filterMap f := by
  rw [List.filterMap_cons]
  cases f a <;> rfl

theorem Method.ofName?_name (m : Method) : ofName? m.name = some m := by cases m <;> decide

theorem Method.name_injective {a b : Method} (h : a.name = b.name) : a = b := by
  have named := ofName?_name a
  rw [h, ofName?_name, Option.some.injEq] at named
  exact named.symm

namespace Script

/-- What receiving a call does. -/
structure Handles (s : Script) (call : Call) (done : Except Status call.method.Reply × Script) :
    Prop where
  answer : done.1 = (s.queue call.method).head?.getD (.error (Peer.noReply call.method))
  taken : done.2.queue call.method = (s.queue call.method).tail
  otherQueues : ∀ m, m ≠ call.method → done.2.queue m = s.queue m
  logged : done.2.log call.method = s.log call.method ++ [call.request]
  otherLogs : ∀ m, m ≠ call.method → done.2.log m = s.log m
  noted : done.2.calls = s.calls ++ [.of call.method.name call.deadline]

theorem respond_eq {α β : Type} (s : Script) (name : String) (request : α)
    (deadline : Option String) (log : Slot RequestLogs α)
    (queue : Slot ScriptedReplies (Except Status β)) (lawful : ∀ q, queue.set q (queue.get q) = q) :
    s.respond name request deadline log queue =
      ((queue.get s.replies).head?.getD
          (.error ⟨.unavailable, "no scripted response for " ++ name, []⟩),
        { replies := queue.set s.replies (queue.get s.replies).tail
          requests := log.set s.requests (log.get s.requests ++ [request])
          calls := s.calls ++ [.of name deadline] }) := by
  rw [respond, record]
  dsimp only
  cases h : queue.get s.replies with
  | nil =>
    have same : queue.set s.replies [] = s.replies := h ▸ lawful s.replies
    rw [List.tail_nil, same]
    rfl
  | cons reply rest => rfl

theorem respondQuery_eq (s : Script) (request : Wire.QueryRequest) (deadline : Option String) :
    s.respondQuery request deadline =
      ((s.replies.query.map QueryScript.reply).head?.getD (.error (Peer.noReply .query)),
        { replies := { s.replies with query := s.replies.query.tail }
          requests := { s.requests with query := s.requests.query ++ [request] }
          calls := s.calls ++ [.of "query" deadline] }) := by
  rw [respondQuery, record]
  dsimp only
  cases h : s.replies.query with
  | nil =>
    have same : { s.replies with query := [] } = s.replies := h ▸ rfl
    rw [List.tail_nil, same]
    rfl
  | cons script rest => rfl

theorem handles_receive (s : Script) (call : Call) : s.Handles call (s.receive call) := by
  obtain ⟨m, request, deadline, authorization⟩ := call
  cases m
  case query =>
    rw [receive, respondQuery_eq]
    exact
      { answer := rfl
        taken := by rw [queue, queue, List.map_tail]
        otherQueues := by intro m other; cases m <;> first | rfl | contradiction
        logged := rfl
        otherLogs := by intro m other; cases m <;> first | rfl | contradiction
        noted := rfl }
  all_goals
    rw [receive, respond_eq _ _ _ _ _ _ (fun _ => rfl)]
    exact
      { answer := rfl
        taken := rfl
        otherQueues := by intro m other; cases m <;> first | rfl | contradiction
        logged := rfl
        otherLogs := by intro m other; cases m <;> first | rfl | contradiction
        noted := rfl }

theorem queue_push (s : Script) (m : Method) (x : m.Scripted) :
    (s.push m x).queue m = s.queue m ++ [m.scriptedReply x] := by
  cases m
  case query => exact List.map_append
  all_goals rfl

theorem queue_push_other (s : Script) {m other : Method} (x : m.Scripted) (h : other ≠ m) :
    (s.push m x).queue other = s.queue other := by
  cases m <;> cases other <;> first | rfl | contradiction

theorem log_push (s : Script) (m : Method) (x : m.Scripted) (other : Method) :
    (s.push m x).log other = s.log other := by
  cases m <;> rfl

theorem calls_push (s : Script) (m : Method) (x : m.Scripted) : (s.push m x).calls = s.calls := by
  cases m <;> rfl

end Script

/-- One step in the life of a script: something is scripted, or a client calls. -/
inductive ScriptEvent where
  | push (m : Method) (x : m.Scripted)
  | call (client : Client) (m : Method) (request : m.Request) (limit : Duration)

namespace ScriptEvent

/-- The call that a client makes. With a limit that no header can state there is none. -/
def call? : ScriptEvent → Option Call
  | .push _ _ => none
  | .call client m request limit => (Deadline.header? limit).map (client.call m request)

/-- The reply that is scripted for a method. -/
def pushed? (m : Method) : ScriptEvent → Option (Except Status m.Reply)
  | .push m' x => if h : m' = m then some (h ▸ m'.scriptedReply x) else none
  | .call .. => none

end ScriptEvent

/-- The request of a call to a method. -/
def Call.request? (m : Method) (call : Call) : Option m.Request :=
  if h : call.method = m then some (h ▸ call.request) else none

/-- A call with the queue of its method as it found it, and its answer. -/
structure AnsweredCall where
  call : Call
  found : List (Except Status call.method.Reply)
  answer : Except Status call.method.Reply

/-- The reply that a call to a method was handed out of the queue. -/
def AnsweredCall.handed? (m : Method) (x : AnsweredCall) : Option (Except Status m.Reply) :=
  if h : x.call.method = m then h ▸ x.found.head? else none

namespace Script

/-- One step: a call that is made with its answer, and the script after it. -/
def step (s : Script) : ScriptEvent → Option AnsweredCall × Script
  | .push m x => (none, s.push m x)
  | .call client m request limit =>
    match Deadline.header? limit with
    | none => (none, s)
    | some deadline =>
      let call := client.call m request deadline
      let (answer, next) := s.receive call
      (some ⟨call, s.queue m, answer⟩, next)

/-- The calls of any steps with their answers, and the script after them. -/
def run : List ScriptEvent → Script → List AnsweredCall × Script
  | [], s => ([], s)
  | event :: rest, s =>
    let (x, next) := s.step event
    let (answered, last) := run rest next
    (x.toList ++ answered, last)

theorem queue_push_eq (s : Script) (m : Method) (x : m.Scripted) (other : Method) :
    (s.push m x).queue other =
      s.queue other ++ ((ScriptEvent.push m x).pushed? other).toList := by
  by_cases same : m = other
  · subst same
    rw [s.queue_push, ScriptEvent.pushed?, dif_pos rfl]
    rfl
  · rw [s.queue_push_other x (Ne.symm same), ScriptEvent.pushed?, dif_neg same]
    exact (List.append_nil _).symm

theorem queue_receive_eq (s : Script) (call : Call) (answer : Except Status call.method.Reply)
    (m : Method) :
    s.queue m = (AnsweredCall.handed? m ⟨call, s.queue call.method, answer⟩).toList ++
      (s.receive call).2.queue m := by
  have handled := s.handles_receive call
  by_cases own : call.method = m
  · subst own
    rw [AnsweredCall.handed?, dif_pos rfl, handled.taken]
    cases s.queue call.method <;> rfl
  · rw [AnsweredCall.handed?, dif_neg own, handled.otherQueues m (Ne.symm own)]
    rfl

theorem log_receive_eq (s : Script) (call : Call) (m : Method) :
    (s.receive call).2.log m = s.log m ++ (call.request? m).toList := by
  have handled := s.handles_receive call
  by_cases own : call.method = m
  · subst own
    rw [handled.logged, Call.request?, dif_pos rfl]
    rfl
  · rw [handled.otherLogs m (Ne.symm own), Call.request?, dif_neg own]
    exact (List.append_nil _).symm

/-- As many calls are noted under the name of a method as its requests are logged. -/
def Balanced (s : Script) (m : Method) : Prop :=
  (s.calls.filter (·.method = m.name)).length = (s.log m).length

theorem Balanced.push {s : Script} {m : Method} (h : s.Balanced m) (m' : Method)
    (x : m'.Scripted) : (s.push m' x).Balanced m := by
  rw [Balanced, s.calls_push, s.log_push]
  exact h

theorem Balanced.receive {s : Script} {m : Method} (h : s.Balanced m) (call : Call) :
    (s.receive call).2.Balanced m := by
  have handled := s.handles_receive call
  rw [Balanced, handled.noted, List.filter_append, List.length_append, h]
  by_cases own : call.method = m
  · subst own
    rw [handled.logged]
    simp [RecordedCall.of]
  · have named : call.method.name ≠ m.name := fun same => own (Method.name_injective same)
    rw [handled.otherLogs m (Ne.symm own)]
    simp [RecordedCall.of, named]

/-- What one step does: a call that is made is answered from its queue, and the queue, the log and
the count of a method change by what the step is about. -/
structure Steps (s : Script) (event : ScriptEvent) (done : Option AnsweredCall × Script) :
    Prop where
  call : done.1.map (·.call) = event.call?
  answer : ∀ x ∈ done.1.toList,
    x.answer = x.found.head?.getD (.error (Peer.noReply x.call.method))
  queue : ∀ m, s.queue m ++ (event.pushed? m).toList =
    (done.1.bind (AnsweredCall.handed? m)).toList ++ done.2.queue m
  log : ∀ m, done.2.log m = s.log m ++ (event.call?.bind (Call.request? m)).toList
  balanced : ∀ m, s.Balanced m → done.2.Balanced m

theorem steps_step (s : Script) (event : ScriptEvent) : s.Steps event (s.step event) := by
  cases event with
  | push m' x =>
    exact
      { call := rfl
        answer := List.forall_mem_nil _
        queue := fun m => (s.queue_push_eq m' x m).symm
        log := by
          intro m
          rw [step, s.log_push]
          exact (List.append_nil _).symm
        balanced := fun m h => h.push m' x }
  | call client m' request limit =>
    cases stated : Deadline.header? limit with
    | none =>
      rw [step, stated]
      refine ⟨?_, List.forall_mem_nil _, fun m => List.append_nil _, fun m => ?_, fun m h => h⟩
      · rw [ScriptEvent.call?, stated]
        rfl
      · rw [ScriptEvent.call?, stated]
        exact (List.append_nil _).symm
    | some deadline =>
      let call := client.call m' request deadline
      rw [step, stated]
      refine ⟨?_, ?_, fun m => ?_, fun m => ?_, fun m h => h.receive call⟩
      · rw [ScriptEvent.call?, stated]
        rfl
      · exact List.forall_mem_singleton.mpr (s.handles_receive call).answer
      · exact (List.append_nil _).trans (s.queue_receive_eq call (s.receive call).1 m)
      · rw [ScriptEvent.call?, stated]
        exact s.log_receive_eq call m

section
variable (events : List ScriptEvent) (s : Script) (m : Method)

theorem calls_run : (run events s).1.map (·.call) = events.filterMap ScriptEvent.call? := by
  induction events generalizing s with
  | nil => rfl
  | cons event rest ih =>
    rw [run, List.map_append, ih, filterMap_cons_toList, ← (s.steps_step event).call,
      Option.toList_map]

theorem answers_run : ∀ x ∈ (run events s).1,
    x.answer = x.found.head?.getD (.error (Peer.noReply x.call.method)) := by
  induction events generalizing s with
  | nil => exact List.forall_mem_nil _
  | cons event rest ih => exact List.forall_mem_append.mpr ⟨(s.steps_step event).answer, ih _⟩

/-- What waited and what is scripted goes to the calls in turn, and the rest still waits. -/
theorem queue_run : s.queue m ++ events.filterMap (ScriptEvent.pushed? m) =
    (run events s).1.filterMap (AnsweredCall.handed? m) ++ (run events s).2.queue m := by
  induction events generalizing s with
  | nil => exact List.append_nil _
  | cons event rest ih =>
    have handed : (s.step event).1.toList.filterMap (AnsweredCall.handed? m) =
        ((s.step event).1.bind (AnsweredCall.handed? m)).toList := by
      cases (s.step event).1 with
      | none => rfl
      | some x => exact (filterMap_cons_toList ..).trans (List.append_nil _)
    rw [run, filterMap_cons_toList, ← List.append_assoc, (s.steps_step event).queue,
      List.append_assoc, ih, List.filterMap_append, handed, List.append_assoc]

theorem log_run : (run events s).2.log m =
    s.log m ++ (events.filterMap ScriptEvent.call?).filterMap (Call.request? m) := by
  induction events generalizing s with
  | nil => exact (List.append_nil _).symm
  | cons event rest ih =>
    rw [run, ih, (s.steps_step event).log, List.append_assoc, List.filterMap_filterMap,
      List.filterMap_filterMap, filterMap_cons_toList]

theorem balanced_run (h : s.Balanced m) : (run events s).2.Balanced m := by
  induction events generalizing s with
  | nil => exact h
  | cons event rest ih => exact ih _ ((s.steps_step event).balanced m h)

end

end Script

namespace Peer

theorem answer_receive (peer : Peer) (call : Call) : (peer.receive call).1 =
    (peer.replies call.method).head?.getD (.error (noReply call.method)) := by
  rw [receive]
  split
  · next empty => rw [empty, List.head?_nil, Option.getD_none]
  · next queue => rw [queue, List.head?_cons, Option.getD_some]

theorem replies_push (peer : Peer) (m : Method) (x : m.Scripted) (other : Method) :
    (peer.push m (m.scriptedReply x)).replies other =
      peer.replies other ++ ((ScriptEvent.push m x).pushed? other).toList := by
  by_cases same : m = other
  · subst same
    rw [push, setReplies_same, ScriptEvent.pushed?, dif_pos rfl]
    rfl
  · rw [push, setReplies_other _ _ same, ScriptEvent.pushed?, dif_neg same]
    exact (List.append_nil _).symm

/-- One step: a call that is made with its answer, and the peer after it. -/
def step (peer : Peer) : ScriptEvent → Option AnsweredCall × Peer
  | .push m x => (none, peer.push m (m.scriptedReply x))
  | .call client m request limit =>
    match Deadline.header? limit with
    | none => (none, peer)
    | some deadline =>
      let call := client.call m request deadline
      let (answer, next) := peer.receive call
      (some ⟨call, peer.replies m, answer⟩, next)

/-- The calls of any steps with the answers of a peer, and the peer after them. -/
def serve : List ScriptEvent → Peer → List AnsweredCall × Peer
  | [], peer => ([], peer)
  | event :: rest, peer =>
    let (x, next) := peer.step event
    let (answered, last) := serve rest next
    (x.toList ++ answered, last)

end Peer

namespace Script

/-- A script with the queues of a peer and with what it has received. -/
structure Shows (s : Script) (peer : Peer) : Prop where
  queues : s.queue = peer.replies
  logs : ∀ m, s.log m = peer.received.filterMap (Call.request? m)
  calls : s.calls = peer.received.map fun call => .of call.method.name call.deadline

theorem shows_fresh : ({} : Script).Shows {} := by
  refine ⟨?_, ?_, rfl⟩
  · funext m
    cases m <;> rfl
  · intro m
    cases m <;> rfl

section
variable {s : Script} {peer : Peer}

theorem Shows.push (h : s.Shows peer) (m : Method) (x : m.Scripted) :
    (s.push m x).Shows (peer.push m (m.scriptedReply x)) := by
  constructor
  · funext other
    rw [s.queue_push_eq, peer.replies_push, h.queues]
  · intro other
    rw [s.log_push]
    exact h.logs other
  · rw [s.calls_push]
    exact h.calls

theorem Shows.answer (h : s.Shows peer) (call : Call) :
    (s.receive call).1 = (peer.receive call).1 := by
  rw [(s.handles_receive call).answer, peer.answer_receive, h.queues]

theorem Shows.receive (h : s.Shows peer) (call : Call) :
    (s.receive call).2.Shows (peer.receive call).2 := by
  have handled := s.handles_receive call
  constructor
  · funext m
    by_cases own : m = call.method
    · subst own
      rw [handled.taken, peer.replies_receive_own, h.queues]
    · rw [handled.otherQueues m own, peer.replies_receive_other call own, h.queues]
  · intro m
    rw [s.log_receive_eq, peer.received_receive, List.filterMap_append, h.logs,
      filterMap_cons_toList, List.filterMap_nil, List.append_nil]
  · rw [handled.noted, peer.received_receive, List.map_append, h.calls]
    rfl

theorem Shows.step (h : s.Shows peer) (event : ScriptEvent) :
    (peer.step event).1 = (s.step event).1 ∧ (s.step event).2.Shows (peer.step event).2 := by
  cases event with
  | push m x => exact ⟨rfl, h.push m x⟩
  | call client m request limit =>
    rw [Peer.step, Script.step]
    cases Deadline.header? limit with
    | none => exact ⟨rfl, h⟩
    | some deadline =>
      let call := client.call m request deadline
      refine ⟨?_, h.receive call⟩
      dsimp only
      rw [h.queues, h.answer]

theorem Shows.run (h : s.Shows peer) (events : List ScriptEvent) :
    (Peer.serve events peer).1 = (Script.run events s).1 ∧
      (Script.run events s).2.Shows (Peer.serve events peer).2 := by
  induction events generalizing s peer with
  | nil => exact ⟨rfl, h⟩
  | cons event rest ih =>
    obtain ⟨same, shows⟩ := h.step event
    obtain ⟨answered, last⟩ := ih shows
    refine ⟨?_, last⟩
    rw [Peer.serve, Script.run]
    dsimp only
    rw [same, answered]

end

/-- What holds of the answers to the calls among any steps, and of the script after them. -/
structure ServedInOrder (events : List ScriptEvent) (answered : List AnsweredCall)
    (last : Script) : Prop where
  /-- Every call is answered. -/
  calls : answered.map (·.call) = events.filterMap ScriptEvent.call?
  /-- A call is answered with the first reply of its queue, or as unavailable. -/
  answers : ∀ x ∈ answered,
    x.answer = x.found.head?.getD (.error (Peer.noReply x.call.method))
  /-- The replies that are scripted for a method are handed out in their order to the calls of
  this method in theirs, each of them once; the rest still waits. -/
  delivered : ∀ m, events.filterMap (ScriptEvent.pushed? m) =
    answered.filterMap (AnsweredCall.handed? m) ++ last.queue m
  /-- The log of a method holds the requests of its calls in their order. -/
  logged : ∀ m, last.log m = (events.filterMap ScriptEvent.call?).filterMap (Call.request? m)
  /-- As many calls are noted for the method. -/
  counted : ∀ m : Method, (last.calls.filter (·.method = m.name)).length = (last.log m).length

/-- However the calls of clients and the scripting of replies take turns, every method is served
from its own queue, in order and apart from the others, and is logged in its own log. The peer of
a session is such a script. -/
theorem calls_interleave (events : List ScriptEvent) :
    let (answered, last) := run events {}
    ServedInOrder events answered last ∧
      (∀ (s : Script) (call : Call), s.Handles call (s.receive call)) ∧
      (Peer.serve events {}).1 = answered ∧ last.Shows (Peer.serve events {}).2 := by
  have empty (m : Method) : ({} : Script).queue m = [] ∧ ({} : Script).log m = [] := by
    cases m <;> exact ⟨rfl, rfl⟩
  refine ⟨?_, handles_receive, shows_fresh.run events⟩
  exact
    { calls := calls_run events {}
      answers := answers_run events {}
      delivered := by
        intro m
        have moved := queue_run events {} m
        rwa [(empty m).1, List.nil_append] at moved
      logged := by
        intro m
        have logged := log_run events {} m
        rwa [(empty m).2, List.nil_append] at logged
      counted := by
        intro m
        have start : ({} : Script).Balanced m := by rw [Balanced, (empty m).2]; rfl
        exact balanced_run events {} m start }

end Script
end DocumentClient
