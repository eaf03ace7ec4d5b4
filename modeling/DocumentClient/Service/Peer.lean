import DocumentClient.Duration
import DocumentClient.Service.Method

/-!
# A peer with prepared replies

The other end of a connection, held in memory. Replies wait in one queue for each method; a
call takes the first one of its own method and is written down. A call that finds no reply is
answered as unavailable. Every call waits for the peer's delay first.
-/

namespace DocumentClient

/-- A call as the peer receives it: the message and what the headers say. -/
structure Call where
  method : Method
  request : method.Request
  deadline : Option String
  authorization : Option String := none

structure Peer where
  replies : (m : Method) → List (Except Status m.Reply) := fun _ => []
  received : List Call := []
  delay : Duration := .zero

namespace Peer

/-- A peer at the far end of a connection. A call needs a moment to get there, the shortest that
there is: only a call without any time is given up on the way. -/
def remote : Peer := { delay := ⟨1⟩ }

/-- The queues with one of them replaced. -/
def setReplies (peer : Peer) (m : Method) (queue : List (Except Status m.Reply)) : Peer :=
  { peer with
    replies := fun other => if h : m = other then h ▸ queue else peer.replies other }

/-- Adds a reply at the end of the queue of its method. -/
def push (peer : Peer) (m : Method) (reply : Except Status m.Reply) : Peer :=
  peer.setReplies m (peer.replies m ++ [reply])

/-- The answer to a call for which no reply is left. -/
def noReply (m : Method) : Status :=
  ⟨.unavailable, "no scripted response for " ++ m.name, []⟩

/-- Receives a call: writes it down and answers it. -/
def receive (peer : Peer) (call : Call) : Except Status call.method.Reply × Peer :=
  let noted := { peer with received := peer.received ++ [call] }
  match peer.replies call.method with
  | [] => (.error (noReply call.method), noted)
  | reply :: rest => (reply, noted.setReplies call.method rest)

/-- Whether a call with this limit is received before it is given up. -/
def inTime (peer : Peer) (limit : Duration) : Bool := peer.delay.ticks ≤ limit.ticks

@[simp] theorem setReplies_same (peer : Peer) (m : Method)
    (queue : List (Except Status m.Reply)) : (peer.setReplies m queue).replies m = queue := by
  simp [setReplies]

theorem setReplies_other (peer : Peer) {m other : Method} (queue : List (Except Status m.Reply))
    (h : m ≠ other) : (peer.setReplies m queue).replies other = peer.replies other := by
  simp [setReplies, h]

theorem received_receive (peer : Peer) (call : Call) :
    (peer.receive call).2.received = peer.received ++ [call] := by
  rw [receive]
  split <;> rfl

theorem delay_receive (peer : Peer) (call : Call) :
    (peer.receive call).2.delay = peer.delay := by
  rw [receive]
  split <;> rfl

theorem replies_receive_own (peer : Peer) (call : Call) :
    (peer.receive call).2.replies call.method = (peer.replies call.method).tail := by
  rw [receive]
  split
  · next empty =>
    rw [empty]
    rfl
  · next queue =>
    rw [queue]
    exact setReplies_same _ _ _

theorem replies_receive_other (peer : Peer) (call : Call) {other : Method}
    (h : other ≠ call.method) : (peer.receive call).2.replies other = peer.replies other := by
  rw [receive]
  split
  · rfl
  · exact setReplies_other _ _ h.symm

theorem answer_receive_of_empty (peer : Peer) (call : Call)
    (empty : peer.replies call.method = []) :
    (peer.receive call).1 = .error (noReply call.method) := by
  rw [receive, empty]

theorem inTime_of_undelayed (peer : Peer) (undelayed : peer.delay = .zero) (limit : Duration) :
    peer.inTime limit = true := by
  simp [inTime, undelayed, Duration.zero, Duration.ticks]

end Peer
end DocumentClient
