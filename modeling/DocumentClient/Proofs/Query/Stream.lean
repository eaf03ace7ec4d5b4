import DocumentClient.Query.Run

/-!
# What a stream holds

The content of a stream apart from how it is cut into chunks: the rows before the first status,
the last metadata among them, and how the stream comes to its end. A run that reads a stream has
some of this still ahead of it. Main statements: one step of a reading run takes the first row
that is ahead and leaves everything else that is ahead as it was; when no row is ahead, the step
gives the closing answer and ends the run. A run starts by one call at most, and it goes on to
read if and only if that call can be made and is accepted.
-/

namespace DocumentClient

/-- How the rows of a stream come to their end. -/
inductive Conclusion where
  | failed (status : Status)
  | stalled
  | ended

namespace ChunkStream

abbrev Item := Except Status Wire.QueryResponse

def rowsOf : List Item → List Bytes
  | .ok chunk :: rest => chunk.rows ++ rowsOf rest
  | _ => []

def lastMetadataOf : List Item → Option Wire.QueryMetadata
  | .ok chunk :: rest => (lastMetadataOf rest).or chunk.metadata
  | _ => none

def conclusionOf (ending : StreamEnd) : List Item → Conclusion
  | [] =>
    match ending with
    | .closed => .ended
    | .stalled => .stalled
  | .error status :: _ => .failed status
  | .ok _ :: rest => conclusionOf ending rest

/-- The rows of the chunks before the first status. -/
def rows (s : ChunkStream) : List Bytes := rowsOf s.items

/-- The metadata of the last chunk that carries any, before the first status. -/
def lastMetadata (s : ChunkStream) : Option Wire.QueryMetadata := lastMetadataOf s.items

def conclusion (s : ChunkStream) : Conclusion := conclusionOf s.ending s.items

/-- No status, and an end. -/
def EndsWell (s : ChunkStream) : Prop :=
  s.ending = .closed ∧ ∀ item ∈ s.items, ∃ chunk, item = .ok chunk

theorem conclusion_eq_ended_iff (s : ChunkStream) : s.conclusion = .ended ↔ s.EndsWell := by
  rw [conclusion, EndsWell]
  induction s.items with
  | nil => cases s.ending <;> simp [conclusionOf]
  | cons item rest ih =>
    cases item with
    | error status => simp [conclusionOf]
    | ok chunk => simp [conclusionOf, ih]

end ChunkStream

@[simp] theorem Outcome.of_eq_ok_iff {α : Type} {result : Except Error α} {a : α} :
    Outcome.of result = .ok a ↔ result = .ok a := by
  cases result <;> simp [Outcome.of]

namespace Run
open ChunkStream

/-- No row is answered as the end of the stream. -/
theorem map_some_ne_end {α : Type} (row : Except Error α) : row.map some ≠ .ok none := by
  cases row with
  | error e => simp [Except.map]
  | ok v => simp [Except.map]

def rowsAhead (run : Run) : List Bytes := run.buffer ++ rowsOf run.unread

def metadataAhead (run : Run) : Option Wire.QueryMetadata :=
  (lastMetadataOf run.unread).or run.lastMetadata

def conclusionAhead (run : Run) : Conclusion := conclusionOf run.ending run.unread

/-- The answer after the last row. -/
def closingAnswer (run : Run) (metadata : Option Wire.QueryMetadata) :
    Conclusion → Except Error (Option Json.Value)
  | .failed status => .error (.ofStatus status)
  | .stalled => .error run.lateError
  | .ended => metadata.elim (.ok none) fun w =>
    (orContentFault (QueryMetadata.ofWire run.serializer w)).map fun _ => none

/-- The metadata that is there once the run has ended. -/
def report (run : Run) (metadata : Option Wire.QueryMetadata) : Conclusion → Option QueryMetadata
  | .failed _ | .stalled => none
  | .ended => metadata.bind fun w => (QueryMetadata.ofWire run.serializer w).toOption

theorem finish_eq (run : Run) :
    run.finish = (run.closingAnswer run.lastMetadata .ended,
      { run with
        phase := .done, unread := [], lastMetadata := none
        metadata? := (run.report run.lastMetadata .ended).or run.metadata? }) := by
  cases hw : run.lastMetadata with
  | none => simp [finish, hw, closingAnswer, report]
  | some w =>
    cases hm : QueryMetadata.ofWire run.serializer w with
    | ok m =>
      simp [finish, hw, hm, orContentFault, closingAnswer, report, Except.toOption, Except.map]
    | error fault =>
      simp [finish, hw, hm, orContentFault, closingAnswer, report, Except.toOption, Except.map]

/-- With a row in the items, pulling stops at it. -/
theorem pull_of_row (run : Run) {items : List Item} {row : Bytes} {rows : List Bytes}
    (h : rowsOf items = row :: rows) :
    ∃ buffer unread lastMetadata,
      run.pull items = (run.decodeRow row, { run with buffer, unread, lastMetadata }) ∧
      buffer ++ rowsOf unread = rows ∧
      (lastMetadataOf unread).or lastMetadata =
        (lastMetadataOf items).or run.lastMetadata ∧
      conclusionOf run.ending unread = conclusionOf run.ending items := by
  induction items generalizing run with
  | nil => simp [rowsOf] at h
  | cons item rest ih =>
    cases item with
    | error status => simp [rowsOf] at h
    | ok chunk =>
      cases hc : chunk.rows with
      | nil =>
        -- an empty chunk leaves nothing but its metadata
        obtain ⟨buffer, unread, lastMetadata, hp, hr, hm, he⟩ :=
          ih { run with lastMetadata := chunk.metadata.or run.lastMetadata }
            (by simpa [rowsOf, hc] using h)
        refine ⟨buffer, unread, lastMetadata, ?_, hr, ?_, he⟩
        · simp only [pull, hc]
          exact hp
        · rw [hm, lastMetadataOf, Option.or_assoc]
      | cons first more =>
        rw [rowsOf, hc, List.cons_append, List.cons.injEq] at h
        obtain ⟨rfl, rfl⟩ := h
        refine ⟨more, rest, chunk.metadata.or run.lastMetadata, ?_, rfl, ?_, rfl⟩
        · simp only [pull, hc]
          rfl
        · rw [lastMetadataOf, Option.or_assoc]

/-- Without one, pulling goes to the end of the items and closes the run. -/
theorem pull_of_no_row (run : Run) {items : List Item} (h : rowsOf items = []) :
    ∃ unread lastMetadata,
      run.pull items =
        (run.closingAnswer ((lastMetadataOf items).or run.lastMetadata)
            (conclusionOf run.ending items),
          { run with
            phase := .done, unread, lastMetadata
            metadata? := (run.report ((lastMetadataOf items).or run.lastMetadata)
              (conclusionOf run.ending items)).or run.metadata? }) := by
  induction items generalizing run with
  | nil =>
    cases he : run.ending with
    | closed =>
      refine ⟨[], none, ?_⟩
      simp only [pull, he, finish_eq, conclusionOf, lastMetadataOf, Option.none_or]
    | stalled =>
      refine ⟨[], run.lastMetadata, ?_⟩
      simp only [pull, he, conclusionOf, closingAnswer, report, Option.none_or]
  | cons item rest ih =>
    cases item with
    | error status =>
      refine ⟨rest, run.lastMetadata, ?_⟩
      simp only [pull, conclusionOf, closingAnswer, report, Option.none_or]
    | ok chunk =>
      rw [rowsOf, List.append_eq_nil_iff] at h
      obtain ⟨unread, lastMetadata, hp⟩ :=
        ih { run with lastMetadata := chunk.metadata.or run.lastMetadata } h.2
      refine ⟨unread, lastMetadata, ?_⟩
      simp only [pull, h.1, lastMetadataOf, Option.or_assoc]
      exact hp

/-- The later run belongs to the same call. -/
structure Continues (run next : Run) : Prop where
  query : next.query = run.query
  serializer : next.serializer = run.serializer
  limit : next.limit = run.limit

theorem Continues.refl (run : Run) : run.Continues run := ⟨rfl, rfl, rfl⟩

theorem Continues.trans {run next last : Run} (h : run.Continues next) (h' : next.Continues last) :
    run.Continues last :=
  ⟨h'.query.trans h.query, h'.serializer.trans h.serializer, h'.limit.trans h.limit⟩

theorem Continues.decodeRow_eq {run next : Run} (h : run.Continues next) :
    next.decodeRow = run.decodeRow := by
  funext row
  simp only [decodeRow, h.serializer]

theorem Continues.closingAnswer_eq {run next : Run} (h : run.Continues next) :
    next.closingAnswer = run.closingAnswer := by
  funext metadata conclusion
  cases conclusion <;> simp only [closingAnswer, lateError, h.query, h.serializer, h.limit]

theorem Continues.report_eq {run next : Run} (h : run.Continues next) :
    next.report = run.report := by
  funext metadata conclusion
  cases conclusion <;> simp only [report, h.serializer]

/-- A reading run takes the first row that is ahead of it. -/
theorem advance_of_row {run : Run} (reading : run.phase = .streaming) {row : Bytes}
    {rows : List Bytes} (h : run.rowsAhead = row :: rows) :
    ∃ next, run.advance = (run.decodeRow row, next) ∧ run.Continues next ∧
      next.phase = .streaming ∧ next.metadata? = run.metadata? ∧ next.rowsAhead = rows ∧
      next.metadataAhead = run.metadataAhead ∧ next.conclusionAhead = run.conclusionAhead := by
  rw [rowsAhead] at h
  cases hb : run.buffer with
  | nil =>
    rw [hb, List.nil_append] at h
    obtain ⟨buffer, unread, lastMetadata, hp, hr, hm, hc⟩ := run.pull_of_row h
    have step : run.advance = run.pull run.unread := by simp only [advance, hb, reading]
    exact ⟨_, step.trans hp, ⟨rfl, rfl, rfl⟩, reading, rfl, hr, hm, hc⟩
  | cons first more =>
    rw [hb, List.cons_append, List.cons.injEq] at h
    obtain ⟨rfl, rfl⟩ := h
    refine ⟨{ run with buffer := more }, ?_, ⟨rfl, rfl, rfl⟩, reading, rfl, rfl, rfl, rfl⟩
    simp only [advance, hb]

/-- With no row ahead, a reading run gives its closing answer and has ended. -/
theorem advance_of_no_row {run : Run} (reading : run.phase = .streaming)
    (h : run.rowsAhead = []) :
    ∃ next, run.advance = (run.closingAnswer run.metadataAhead run.conclusionAhead, next) ∧
      run.Continues next ∧ next.phase = .done ∧ next.buffer = [] ∧
      next.metadata? =
        (run.report run.metadataAhead run.conclusionAhead).or run.metadata? := by
  obtain ⟨hb, hu⟩ := List.append_eq_nil_iff.mp h
  obtain ⟨unread, lastMetadata, hp⟩ := run.pull_of_no_row hu
  have step : run.advance = run.pull run.unread := by simp only [advance, hb, reading]
  exact ⟨_, step.trans hp, ⟨rfl, rfl, rfl⟩, rfl, hb, rfl⟩

/-- A run that has ended gives nothing more. -/
theorem advance_of_done {run : Run} (spent : run.phase = .done) (h : run.buffer = []) :
    run.advance = (.error .alreadyQueried, run) := by
  simp only [advance, h, spent]

theorem continues_of_advance {run next : Run} {answer : Except Error (Option Json.Value)}
    (h : run.advance = (answer, next)) : run.Continues next := by
  cases hb : run.buffer with
  | cons row rows =>
    rw [advance, hb] at h
    cases h
    exact ⟨rfl, rfl, rfl⟩
  | nil =>
    cases hp : run.phase with
    | streaming =>
      cases hr : run.rowsAhead with
      | nil =>
        obtain ⟨after, ha, same, -⟩ := advance_of_no_row hp hr
        cases ha.symm.trans h
        exact same
      | cons row rows =>
        obtain ⟨after, ha, same, -⟩ := advance_of_row hp hr
        cases ha.symm.trans h
        exact same
    | notStarted | done =>
      rw [advance, hb, hp] at h
      cases h
      exact .refl run

theorem continues_of_collect {run next : Run} {α : Type} {convert : Json.Value → Except Error α}
    {answer : Except Error (List α)} (h : run.collect convert = (answer, next)) :
    run.Continues next := by
  fun_induction collect convert run generalizing answer next with
  | case1 run e after ha =>
    cases h
    exact continues_of_advance ha
  | case2 run after ha =>
    cases h
    exact continues_of_advance ha
  | case3 run row after ha e hv =>
    cases h
    exact continues_of_advance ha
  | case4 run row after ha a hv e last hl ih =>
    cases h
    exact (continues_of_advance ha).trans (ih hl)
  | case5 run row after ha a hv rows last hl ih =>
    cases h
    exact (continues_of_advance ha).trans (ih hl)

theorem collect_of_done {run : Run} (spent : run.phase = .done) (h : run.buffer = []) {α : Type}
    (convert : Json.Value → Except Error α) :
    run.collect convert = (.error .alreadyQueried, run) := by
  have ha := advance_of_done spent h
  rw [collect]
  split
  · next hb =>
    cases hb.symm.trans ha
    rfl
  · next hb => cases hb.symm.trans ha
  · next hb => cases hb.symm.trans ha

/-- The stream that a run reads if its call is made now: the call can be written, has a header for
its limit, is answered in time and is accepted. -/
def accepted? (run : Run) (peer : Peer) : Option ChunkStream :=
  match run.query.toWire, Deadline.header? run.limit with
  | .ok _, some _ =>
    if peer.inTime run.limit then
      match peer.replies .query with
      | .ok stream :: _ => some stream
      | _ => none
    else none
  | _, _ => none

/-- The later peer has received at most one call more, and that is the call of the run. -/
def AskedOnce (run : Run) (client : Client) (peer later : Peer) : Prop :=
  ∃ sent, later.received = peer.received ++ sent ∧ sent.length ≤ 1 ∧
    ∀ call ∈ sent, ∃ request deadline, run.query.toWire = .ok request ∧
      Deadline.header? run.limit = some deadline ∧ call = client.call .query request deadline

theorem askedOnce_refl (run : Run) (client : Client) (peer : Peer) :
    run.AskedOnce client peer peer := ⟨[], by simp⟩

theorem askedOnce_receive (run : Run) (client : Client) (peer : Peer)
    {request : Wire.QueryRequest} {deadline : String} (h : run.query.toWire = .ok request)
    (stated : Deadline.header? run.limit = some deadline) :
    run.AskedOnce client peer (peer.receive (client.call .query request deadline)).2 := by
  refine ⟨[client.call .query request deadline], peer.received_receive _, by simp, ?_⟩
  intro call hc
  exact ⟨request, deadline, h, stated, List.mem_singleton.mp hc⟩

theorem ensureStarted_of_started (run : Run) (started : run.phase ≠ .notStarted) (client : Client)
    (peer : Peer) : run.ensureStarted client peer = (.ok (), run, peer) := by
  simp only [ensureStarted, started, and_false, if_false]

theorem nextRow_of_started (run : Run) (started : run.phase ≠ .notStarted) (client : Client)
    (peer : Peer) : run.nextRow client peer = (.of run.advance.1, run.advance.2, peer) := by
  rw [nextRow, run.ensureStarted_of_started started]

theorem start_of_accepted (run : Run) (client : Client) (peer : Peer) {stream : ChunkStream}
    (h : run.accepted? peer = some stream) :
    ∃ later, run.AskedOnce client peer later ∧ run.start client peer =
      (.ok (), { run with phase := .streaming, unread := stream.items, ending := stream.ending },
        later) := by
  rw [accepted?] at h
  cases hw : run.query.toWire with
  | error why => simp [hw] at h
  | ok request =>
    cases hd : Deadline.header? run.limit with
    | none => simp [hw, hd] at h
    | some deadline =>
      cases ht : peer.inTime run.limit with
      | false => simp [hw, hd, ht] at h
      | true =>
        cases hq : peer.replies .query with
        | nil => simp [hw, hd, ht, hq] at h
        | cons reply rest =>
          cases reply with
          | error status => simp [hw, hd, ht, hq] at h
          | ok first =>
            obtain rfl : first = stream := by simpa [hw, hd, ht, hq] using h
            refine ⟨_, run.askedOnce_receive client peer hw hd, ?_⟩
            simp only [start, hw, hd, orRefuse, ht, if_true, Peer.receive, Client.call, hq]

theorem start_of_not_accepted (run : Run) (client : Client) (peer : Peer)
    (h : run.accepted? peer = none) :
    ∃ result later, run.AskedOnce client peer later ∧ result ≠ .ok () ∧
      run.start client peer = (result, { run with phase := .done }, later) := by
  rw [accepted?] at h
  cases hw : run.query.toWire with
  | error why =>
    refine ⟨.error (.refused (.query why)), peer, run.askedOnce_refl client peer, by simp, ?_⟩
    simp only [start, hw, orRefuse]
  | ok request =>
    cases hd : Deadline.header? run.limit with
    | none =>
      refine ⟨.crashed, peer, run.askedOnce_refl client peer, by simp, ?_⟩
      simp only [start, hw, hd, orRefuse]
    | some deadline =>
      cases ht : peer.inTime run.limit with
      | false =>
        refine ⟨.error run.lateError, peer, run.askedOnce_refl client peer, by simp, ?_⟩
        simp only [start, hw, hd, orRefuse, ht, Bool.false_eq_true, if_false]
      | true =>
        have asked := run.askedOnce_receive client peer hw hd
        cases hq : peer.replies .query with
        | nil =>
          refine ⟨.error (.ofStatus (Peer.noReply .query)), _, asked, by simp, ?_⟩
          simp only [start, hw, hd, orRefuse, ht, if_true, Peer.receive, Client.call, hq]
        | cons reply rest =>
          cases reply with
          | ok first => simp [hw, hd, ht, hq] at h
          | error status =>
            refine ⟨.error (.ofStatus status), _, asked, by simp, ?_⟩
            simp only [start, hw, hd, orRefuse, ht, if_true, Peer.receive, Client.call, hq]

/-- Starting, where that is due, goes on with the same call. -/
theorem ensureStarted_spec (run : Run) (client : Client) (peer : Peer) :
    ∃ result next later, run.ensureStarted client peer = (result, next, later) ∧
      run.Continues next ∧ run.AskedOnce client peer later := by
  rw [ensureStarted]
  split
  · cases ha : run.accepted? peer with
    | none =>
      obtain ⟨result, later, asked, -, hs⟩ := run.start_of_not_accepted client peer ha
      exact ⟨_, _, _, hs, ⟨rfl, rfl, rfl⟩, asked⟩
    | some stream =>
      obtain ⟨later, asked, hs⟩ := run.start_of_accepted client peer ha
      exact ⟨_, _, _, hs, ⟨rfl, rfl, rfl⟩, asked⟩
  · exact ⟨_, _, _, rfl, .refl run, run.askedOnce_refl client peer⟩

section
variable {run next : Run} {client : Client} {peer later : Peer}

/-- A read gives no row and does not reach the end, or it advances a run that has been started. -/
theorem nextRow_cases {answer : Outcome (Option Json.Value)}
    (h : run.nextRow client peer = (answer, next, later)) :
    ∃ result started, run.ensureStarted client peer = (result, started, later) ∧
      (((∀ row, answer ≠ .ok row) ∧ next = started) ∨
        ∃ row, started.advance = (row, next) ∧ answer = .of row) := by
  obtain ⟨result, started, asked, hs, -⟩ := run.ensureStarted_spec client peer
  rw [nextRow, hs] at h
  cases result with
  | crashed | error =>
    cases h
    exact ⟨_, _, hs, .inl ⟨nofun, rfl⟩⟩
  | ok _ =>
    cases h
    exact ⟨_, _, hs, .inr ⟨_, rfl, rfl⟩⟩

theorem executeWith_cases {α : Type} {convert : Json.Value → Except Error α}
    {answer : Outcome (List α)}
    (h : run.executeWith convert client peer = (answer, next, later)) :
    ∃ result started, run.ensureStarted client peer = (result, started, later) ∧
      (((∀ rows, answer ≠ .ok rows) ∧ next = started) ∨
        ∃ rows, started.collect convert = (rows, next) ∧ answer = .of rows) := by
  obtain ⟨result, started, asked, hs, -⟩ := run.ensureStarted_spec client peer
  rw [executeWith, hs] at h
  cases result with
  | crashed | error =>
    cases h
    exact ⟨_, _, hs, .inl ⟨nofun, rfl⟩⟩
  | ok _ =>
    cases h
    exact ⟨_, _, hs, .inr ⟨_, rfl, rfl⟩⟩

/-- A converted row is at the end where the row itself is. -/
theorem nextRowWith_cases {α : Type} {convert : Json.Value → Except Error α}
    {answer : Outcome (Option α)}
    (h : run.nextRowWith convert client peer = (answer, next, later)) :
    ∃ row, run.nextRow client peer = (row, next, later) ∧ (answer = .ok none → row = .ok none) := by
  rcases hr : run.nextRow client peer with ⟨row, after, asked⟩
  rw [nextRowWith, hr] at h
  cases row with
  | crashed | error =>
    cases h
    exact ⟨_, rfl, nofun⟩
  | ok row =>
    cases row with
    | none =>
      cases h
      exact ⟨_, rfl, fun _ => rfl⟩
    | some v =>
      cases h
      exact ⟨_, rfl, fun h => absurd (Outcome.of_eq_ok_iff.mp h) (map_some_ne_end _)⟩

end

end Run
end DocumentClient
