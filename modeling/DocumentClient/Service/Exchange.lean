import DocumentClient.Connection.Deadline
import DocumentClient.Error
import DocumentClient.Service.Peer

/-!
# Exchanges

A call that has been checked and prepared, with the reading of its answer. Preparing a call
touches nothing; running it makes at most one call. A call that is not answered within its
limit fails, and the peer does not see it. Nor does it see a call whose limit is too long for a
header: the program breaks down where it should be written, and the caller gets no answer at all.
-/

namespace DocumentClient

/-- What becomes of a call: a result or an error is returned, or the program breaks down. -/
inductive Outcome (α : Type) where
  | ok (a : α)
  | error (e : Error)
  | crashed

namespace Outcome
variable {α β : Type}

/-- A result that is returned. -/
def of : Except Error α → Outcome α
  | .ok a => .ok a
  | .error e => .error e

end Outcome

/-- One end of a connection: its configuration and the header that authorises its calls. -/
structure Client where
  configuration : Configuration
  authorization : Option String := none

namespace Client

/-- A client that talks to a peer directly. -/
def direct (configuration : Configuration) : Except Error Client :=
  match orRefuse .configuration configuration.validate with
  | .error e => .error e
  | .ok () => .ok { configuration }

/-- A client that sends its credentials with every call. -/
def authorized (configuration : Configuration) : Except Error Client :=
  match direct configuration with
  | .error e => .error e
  | .ok client =>
    match configuration.credentials with
    | none => .ok client
    | some credentials =>
      match credentials.header? with
      | none => .error (.refused .credentials)
      | some header => .ok { client with authorization := some header }

/-- A message with the headers that go with it. -/
def call (client : Client) (m : Method) (request : m.Request) (deadline : String) : Call where
  method := m
  request := request
  deadline := some deadline
  authorization := client.authorization

end Client

structure Exchange (α : Type) where
  operation : Operation
  resource : String
  limit : Duration
  method : Method
  request : method.Request
  read : method.Reply → Except Error α

namespace Exchange
variable {α : Type}

/-- Makes the call and reads the answer. The headers are written before the peer is reached. -/
def run (x : Exchange α) (client : Client) (peer : Peer) : Outcome α × Peer :=
  match Deadline.header? x.limit with
  | none => (.crashed, peer)
  | some deadline =>
    if peer.inTime x.limit then
      match peer.receive (client.call x.method x.request deadline) with
      | (.ok reply, peer) => (.of (x.read reply), peer)
      | (.error status, peer) => (.error (.ofStatus status), peer)
    else (.error (.late x.operation x.resource x.limit), peer)

/-- Runs what was prepared; what was refused is not sent. -/
def runPrepared (x : Except Error (Exchange α)) (client : Client) (peer : Peer) :
    Outcome α × Peer :=
  match x with
  | .ok x => x.run client peer
  | .error e => (.error e, peer)

end Exchange
end DocumentClient
