import DocumentClient.Query.Metadata
import DocumentClient.Service.Exchange

/-!
# Running a query

The rows of a query are read one at a time. The call is made for the first row; then chunks
are taken from the stream only when no row is left of the chunks before. A run ends with the
stream, with its first failure or when the stream stalls, and nothing can be read after that.
A call whose limit is too long for a header breaks the program down and leaves a run that has ended.
The metadata is that of the last chunk that carried any, and it is there once the stream has
ended well.
-/

namespace DocumentClient

inductive Phase where
  | notStarted
  | streaming
  | done
deriving DecidableEq

def Phase.text : Phase → String
  | .notStarted => "not_started"
  | .streaming => "streaming"
  | .done => "done"

structure Run where
  query : Query
  serializer : Serializer
  limit : Duration
  phase : Phase := .notStarted
  buffer : List Bytes := []
  /-- What has not been taken from the stream. -/
  unread : List (Except Status Wire.QueryResponse) := []
  ending : StreamEnd := .closed
  lastMetadata : Option Wire.QueryMetadata := none
  metadata? : Option QueryMetadata := none

namespace Run

/-- A prepared query; what it does not set is configured. -/
def ofQuery (configuration : Configuration) (query : Query) : Run where
  query := query
  serializer := query.serializer.getD configuration.serializer
  limit := query.timeout.getD configuration.queryTimeout

def isDone (run : Run) : Bool := run.phase = .done

def decodeRow (run : Run) (row : Bytes) : Except Error (Option Json.Value) :=
  (orContentFault (run.serializer.read row)).map some

/-- Ends a run whose stream has ended well. -/
def finish (run : Run) : Except Error (Option Json.Value) × Run :=
  let ended := { run with phase := .done, unread := [], lastMetadata := none }
  match run.lastMetadata with
  | none => (.ok none, ended)
  | some w =>
    match orContentFault (QueryMetadata.ofWire run.serializer w) with
    | .ok m => (.ok none, { ended with metadata? := some m })
    | .error e => (.error e, ended)

def lateError (run : Run) : Error := .lateQuery run.query.statement run.limit

/-- Takes chunks from the stream up to the first row. -/
def pull (run : Run) :
    List (Except Status Wire.QueryResponse) → Except Error (Option Json.Value) × Run
  | [] =>
    match run.ending with
    | .closed => run.finish
    | .stalled => (.error run.lateError, { run with phase := .done, unread := [] })
  | .error status :: rest =>
    (.error (.ofStatus status), { run with phase := .done, unread := rest })
  | .ok chunk :: rest =>
    let run := { run with lastMetadata := chunk.metadata.or run.lastMetadata }
    match chunk.rows with
    | [] => run.pull rest
    | row :: rows => (run.decodeRow row, { run with buffer := rows, unread := rest })

/-- The next row of a run that has been started: a row, nothing at the end of the stream. -/
def advance (run : Run) : Except Error (Option Json.Value) × Run :=
  match run.buffer with
  | row :: rows => (run.decodeRow row, { run with buffer := rows })
  | [] =>
    match run.phase with
    | .streaming => run.pull run.unread
    | .notStarted | .done => (.error .alreadyQueried, run)

/-- Makes the call of a run. A run whose call fails or cannot be made is spent. -/
def start (run : Run) (client : Client) (peer : Peer) : Outcome Unit × Run × Peer :=
  let spent := { run with phase := .done }
  match orRefuse .query run.query.toWire with
  | .error e => (.error e, spent, peer)
  | .ok request =>
    match Deadline.header? run.limit with
    | none => (.crashed, spent, peer)
    | some deadline =>
      if peer.inTime run.limit then
        match peer.receive (client.call .query request deadline) with
        | (.error status, peer) => (.error (.ofStatus status), spent, peer)
        | (.ok stream, peer) =>
          (.ok (),
            { run with phase := .streaming, unread := stream.items, ending := stream.ending },
            peer)
      else (.error run.lateError, spent, peer)

/-- Makes the call unless that has been done before. -/
def ensureStarted (run : Run) (client : Client) (peer : Peer) : Outcome Unit × Run × Peer :=
  if run.buffer = [] ∧ run.phase = .notStarted then run.start client peer
  else (.ok (), run, peer)

/-- The next row in the order of the server, nothing at the end. -/
def nextRow (run : Run) (client : Client) (peer : Peer) :
    Outcome (Option Json.Value) × Run × Peer :=
  match run.ensureStarted client peer with
  | (.crashed, run, peer) => (.crashed, run, peer)
  | (.error e, run, peer) => (.error e, run, peer)
  | (.ok (), run, peer) =>
    let (answer, run) := run.advance
    (.of answer, run, peer)

/-- The next row read through `convert`. -/
def nextRowWith {α : Type} (run : Run) (convert : Json.Value → Except Error α)
    (client : Client) (peer : Peer) : Outcome (Option α) × Run × Peer :=
  match run.nextRow client peer with
  | (.ok (some row), run, peer) => (.of ((convert row).map some), run, peer)
  | (.ok none, run, peer) => (.ok none, run, peer)
  | (.error e, run, peer) => (.error e, run, peer)
  | (.crashed, run, peer) => (.crashed, run, peer)

/-- The next row read as a shape. -/
def nextRowAs (run : Run) (shape : Json.Shape) (client : Client) (peer : Peer) :
    Outcome (Option Json.Value) × Run × Peer :=
  run.nextRowWith (fun row => orContentFault (readValue shape row)) client peer

/-- The rows of a stream. -/
def rowCount : List (Except Status Wire.QueryResponse) → Nat
  | [] => 0
  | .ok chunk :: rest => chunk.rows.length + rowCount rest
  | .error _ :: rest => rowCount rest

/-- How many rows can still come, and one more for the end. -/
def weight (run : Run) : Nat :=
  run.buffer.length + rowCount run.unread + (if run.phase = .done then 0 else 1)

theorem weight_pull_lt {run next : Run} {v : Json.Value}
    {items : List (Except Status Wire.QueryResponse)}
    (h : run.pull items = (.ok (some v), next)) :
    next.buffer.length + rowCount next.unread < rowCount items ∧ next.phase = run.phase := by
  induction items generalizing run with
  | nil =>
    simp only [pull] at h
    split at h
    · simp only [finish] at h
      split at h
      · cases h
      · split at h <;> cases h
    · cases h
  | cons item rest ih =>
    cases item with
    | error status =>
      simp only [pull] at h
      cases h
    | ok chunk =>
      simp only [pull] at h
      split at h
      · have := ih h
        simp only [rowCount] at this ⊢
        exact ⟨by omega, this.2⟩
      · next row rows hr =>
        obtain rfl := (Prod.mk.inj h).2
        simp [rowCount, hr]

/-- A row that is read is one row less to come. -/
theorem weight_advance_lt {run next : Run} {v : Json.Value}
    (h : run.advance = (.ok (some v), next)) : next.weight < run.weight := by
  unfold advance at h
  split at h
  · next row rows hb =>
    obtain rfl := (Prod.mk.inj h).2
    simp [weight, hb]
  · next hb =>
    split at h
    · have := weight_pull_lt h
      simp only [weight, hb, this.2, List.length_nil]
      omega
    · cases h
    · cases h

/-- Reads the remaining rows of a run that has been started, each one through `convert`, up to
the end or the first failure. -/
def collect {α : Type} (convert : Json.Value → Except Error α) (run : Run) :
    Except Error (List α) × Run :=
  match _h : run.advance with
  | (.error e, next) => (.error e, next)
  | (.ok none, next) => (.ok [], next)
  | (.ok (some row), next) =>
    match convert row with
    | .error e => (.error e, next)
    | .ok a =>
      match next.collect convert with
      | (.error e, last) => (.error e, last)
      | (.ok as, last) => (.ok (a :: as), last)
termination_by run.weight
decreasing_by exact weight_advance_lt _h

/-- What a reader sees who takes row after row: the rows and, if there is one, the failure that
ends them. -/
def stream (run : Run) : List (Except Error Json.Value) :=
  match _h : run.advance with
  | (.error e, _) => [.error e]
  | (.ok none, _) => []
  | (.ok (some row), next) => .ok row :: next.stream
termination_by run.weight
decreasing_by exact weight_advance_lt _h

def executeWith {α : Type} (run : Run) (convert : Json.Value → Except Error α)
    (client : Client) (peer : Peer) : Outcome (List α) × Run × Peer :=
  match run.ensureStarted client peer with
  | (.crashed, run, peer) => (.crashed, run, peer)
  | (.error e, run, peer) => (.error e, run, peer)
  | (.ok (), run, peer) =>
    let (answer, run) := run.collect convert
    (.of answer, run, peer)

/-- Reads every remaining row. -/
def execute (run : Run) (client : Client) (peer : Peer) :
    Outcome (List Json.Value) × Run × Peer :=
  run.executeWith .ok client peer

/-- Reads every remaining row as a shape. -/
def executeAs (run : Run) (shape : Json.Shape) (client : Client) (peer : Peer) :
    Outcome (List Json.Value) × Run × Peer :=
  run.executeWith (fun row => orContentFault (readValue shape row)) client peer

/-- The remaining rows one after another, and what ends them if it is not the end of the stream. -/
def intoStream (run : Run) (client : Client) (peer : Peer) :
    List (Outcome Json.Value) × Peer :=
  match run.ensureStarted client peer with
  | (.crashed, _, peer) => ([.crashed], peer)
  | (.error e, _, peer) => ([.error e], peer)
  | (.ok (), run, peer) => (run.stream.map .of, peer)

/-- The metadata of a run that has ended. -/
def metadata (run : Run) : Except Error QueryMetadata :=
  if run.phase = .done then
    match run.metadata? with
    | some m => .ok m
    | none => .error .metadataMissing
  else .error .metadataPending

/-- A run as it may be shown. -/
def display (run : Run) : String :=
  "N1qlRequest \x7b statement: " ++ Text.quoted run.query.statement ++ ", state: "
    ++ Text.quoted run.phase.text ++ ", buffered_rows: "
    ++ Decimal.text run.buffer.length ++ ", .. \x7d"

end Run
end DocumentClient
