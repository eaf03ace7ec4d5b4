import DocumentClient.Proofs.Options.Times
import DocumentClient.Proofs.Query.Metadata
import DocumentClient.Proofs.Query.Stream
import Mathlib.Data.List.Forall2

/-!
# Row by row delivery

What a reader sees who asks a run for one row after another. The run answers with every row of
the stream in order, a row that the serializer refuses with its own fault; then it answers once
with the way in which the stream ended, and from then on that it has been queried already. So only
the content of the stream matters, not where its chunks begin and end. Main statement:
`Run.rows_answered_in_order`.
-/

namespace DocumentClient

/-- The answer to a read that comes to a row: what the serializer reads, or the fault of this
row. -/
inductive RowAnswer (serializer : Serializer) (row : Bytes) :
    Outcome (Option Json.Value) → Prop where
  | value {v : Json.Value} (read : serializer.read row = .ok v) :
    RowAnswer serializer row (.ok (some v))
  | fault {fault : ContentFault} (refused : serializer.read row = .error fault) :
    RowAnswer serializer row (.error (.content fault))

theorem RowAnswer.unique {serializer : Serializer} {row : Bytes}
    {a b : Outcome (Option Json.Value)} (h : RowAnswer serializer row a)
    (h' : RowAnswer serializer row b) : a = b := by
  cases h with
  | value read =>
    cases h' with
    | value again =>
      cases read.symm.trans again
      rfl
    | fault refused => cases read.symm.trans refused
  | fault refused =>
    cases h' with
    | value read => cases refused.symm.trans read
    | fault again =>
      cases refused.symm.trans again
      rfl

/-- The answer to the read after the last row, by the last metadata and the conclusion of the
stream. -/
inductive ClosingAnswer (serializer : Serializer) (metadata : Option Wire.QueryMetadata) :
    Conclusion → Outcome (Option Json.Value) → Prop where
  | failed (status : Status) :
    ClosingAnswer serializer metadata (.failed status) (.error (.ofStatus status))
  | stalled {e : Error} (late : e.kind = .timeout) :
    ClosingAnswer serializer metadata .stalled (.error e)
  | ended (readable : ∀ w, metadata = some w → ∃ m, QueryMetadata.Says serializer w m) :
    ClosingAnswer serializer metadata .ended (.ok none)
  | unreadable {w : Wire.QueryMetadata} {fault : ContentFault} (last : metadata = some w)
    (refused : QueryMetadata.Refused serializer w fault) :
    ClosingAnswer serializer metadata .ended (.error (.content fault))

namespace Run
open ChunkStream

theorem rowAnswer_decodeRow (run : Run) (row : Bytes) :
    RowAnswer run.serializer row (.of (run.decodeRow row)) := by
  rw [decodeRow]
  cases read : run.serializer.read row with
  | ok v => exact .value read
  | error fault => exact .fault read

theorem closingAnswer_closingAnswer (run : Run) (metadata : Option Wire.QueryMetadata)
    (conclusion : Conclusion) :
    ClosingAnswer run.serializer metadata conclusion
      (.of (run.closingAnswer metadata conclusion)) := by
  cases conclusion with
  | failed status => exact .failed status
  | stalled => exact .stalled rfl
  | ended =>
    cases metadata with
    | none => exact .ended nofun
    | some w =>
      cases read : QueryMetadata.ofWire run.serializer w with
      | ok m =>
        rw [closingAnswer, Option.elim_some, read]
        refine .ended ?_
        rintro _ ⟨⟩
        exact ⟨m, QueryMetadata.ofWire_eq_ok_iff.mp read⟩
      | error fault =>
        rw [closingAnswer, Option.elim_some, read]
        exact .unreadable rfl (QueryMetadata.ofWire_eq_error_iff.mp read)

/-- The answers to `n` reads of a run, one after another. -/
def reads (run : Run) (client : Client) (peer : Peer) :
    Nat → List (Outcome (Option Json.Value))
  | 0 => []
  | n + 1 =>
    let (answer, next, peer) := run.nextRow client peer
    answer :: next.reads client peer n

/-- The answers of a run with these rows ahead, up to the one that closes it. -/
def answers (run : Run) (rows : List Bytes) (metadata : Option Wire.QueryMetadata)
    (conclusion : Conclusion) : List (Outcome (Option Json.Value)) :=
  rows.map (fun row => .of (run.decodeRow row)) ++ [.of (run.closingAnswer metadata conclusion)]

theorem Continues.answers_eq {run next : Run} (h : run.Continues next) :
    next.answers = run.answers := by
  funext rows metadata conclusion
  simp only [answers, h.decodeRow_eq, h.closingAnswer_eq]

/-- What any number of reads shows of a finite list of answers. -/
def shown (answers : List (Outcome (Option Json.Value))) (n : Nat) :
    List (Outcome (Option Json.Value)) :=
  (answers ++ List.replicate n (Outcome.error Error.alreadyQueried)).take n

theorem shown_cons (answer : Outcome (Option Json.Value))
    (answers : List (Outcome (Option Json.Value))) (n : Nat) :
    shown (answer :: answers) (n + 1) = answer :: shown answers n := by
  simp only [shown, List.cons_append, List.take_succ_cons, List.replicate_succ',
    ← List.append_assoc]
  rw [List.take_append_of_le_length]
  simp

theorem shown_nil (n : Nat) :
    shown [] n = List.replicate n (Outcome.error Error.alreadyQueried) := by
  simp [shown]

theorem reads_of_advance {run next : Run} {answer : Except Error (Option Json.Value)}
    (started : run.phase ≠ .notStarted) (h : run.advance = (answer, next)) (client : Client)
    (peer : Peer) (n : Nat) :
    run.reads client peer (n + 1) = .of answer :: next.reads client peer n := by
  rw [reads, run.nextRow_of_started started, h]

theorem reads_of_done {run : Run} (spent : run.phase = .done) (h : run.buffer = [])
    (client : Client) (peer : Peer) (n : Nat) : run.reads client peer n = shown [] n := by
  rw [shown_nil]
  induction n with
  | zero => rfl
  | succ n ih =>
    rw [reads_of_advance (by simp [spent]) (advance_of_done spent h), List.replicate_succ, ih]
    rfl

/-- What is still ahead of a reading run is what it will answer. -/
theorem reads_of_streaming (run : Run) (reading : run.phase = .streaming) (client : Client)
    (peer : Peer) (n : Nat) :
    run.reads client peer n =
      shown (run.answers run.rowsAhead run.metadataAhead run.conclusionAhead) n := by
  induction n generalizing run with
  | zero => rfl
  | succ n ih =>
    have started : run.phase ≠ .notStarted := by simp [reading]
    cases hr : run.rowsAhead with
    | nil =>
      obtain ⟨next, ha, -, spent, drained, -⟩ := advance_of_no_row reading hr
      rw [reads_of_advance started ha, reads_of_done spent drained, answers, List.map_nil,
        List.nil_append, shown_cons]
    | cons row rows =>
      obtain ⟨next, ha, same, still, -, hrows, hm, hc⟩ := advance_of_row reading hr
      rw [reads_of_advance started ha, ih next still, hrows, hm, hc, same.answers_eq, answers,
        answers, List.map_cons, List.cons_append, shown_cons]

/-- The answers of a run whose call is accepted are given by the content of the stream. -/
theorem reads_of_accepted (run : Run) (client : Client) (peer : Peer)
    (fresh : run.phase = .notStarted) (h : run.buffer = []) (unmarked : run.lastMetadata = none)
    {stream : ChunkStream} (accepted : run.accepted? peer = some stream) (n : Nat) :
    run.reads client peer n =
      shown (run.answers stream.rows stream.lastMetadata stream.conclusion) n := by
  obtain ⟨later, -, hs⟩ := run.start_of_accepted client peer accepted
  cases n with
  | zero => rfl
  | succ n =>
    let begun : Run :=
      { run with phase := .streaming, unread := stream.items, ending := stream.ending }
    -- the first read is the first read of the run that has begun
    have first : run.nextRow client peer = begun.nextRow client later := by
      rw [begun.nextRow_of_started (by simp [begun])]
      simp only [nextRow, ensureStarted, fresh, h, and_self, if_true, hs, begun]
    have same : run.reads client peer (n + 1) = begun.reads client later (n + 1) := by
      rw [reads, first, reads]
    have hrows : begun.rowsAhead = stream.rows := by
      simp only [rowsAhead, begun, h, List.nil_append, ChunkStream.rows]
    have hm : begun.metadataAhead = stream.lastMetadata := by
      simp only [metadataAhead, begun, unmarked, Option.or_none, ChunkStream.lastMetadata]
    rw [same, begun.reads_of_streaming rfl, hrows, hm]
    rfl

theorem accepted?_of_scripted {run : Run} {peer : Peer} {request : Wire.QueryRequest}
    {stream : ChunkStream} {later : List (Except Status ChunkStream)}
    (prepared : run.query.toWire = .ok request) (short : run.limit.hours ≤ Deadline.maxAmount)
    (undelayed : peer.delay = .zero) (scripted : peer.replies .query = .ok stream :: later) :
    run.accepted? peer = some stream := by
  obtain ⟨deadline, stated⟩ :=
    Option.isSome_iff_exists.mp ((Deadline.header?_isSome_iff run.limit).mpr short)
  simp only [accepted?, prepared, stated, peer.inTime_of_undelayed undelayed, if_true, scripted]

/-- Every row of an accepted stream is answered in order, with what the serializer reads or with the
fault of this row; the end of the stream is answered once. Streams of the same content have the same
answers. -/
theorem rows_answered_in_order (configuration : Configuration) (query : Query) (client : Client)
    (peer : Peer) {request : Wire.QueryRequest} {stream : ChunkStream}
    {later : List (Except Status ChunkStream)} (prepared : query.toWire = .ok request)
    (short : (query.timeout.getD configuration.queryTimeout).hours ≤ Deadline.maxAmount)
    (undelayed : peer.delay = .zero) (scripted : peer.replies .query = .ok stream :: later) :
    let run := ofQuery configuration query
    let serializer := query.serializer.getD configuration.serializer
    (∃ answers closing, List.Forall₂ (RowAnswer serializer) stream.rows answers ∧
      ClosingAnswer serializer stream.lastMetadata stream.conclusion closing ∧
      ∀ n, run.reads client peer n =
        (answers ++ closing :: List.replicate n (.error .alreadyQueried)).take n) ∧
      ∀ other : ChunkStream, other.rows = stream.rows →
        other.lastMetadata = stream.lastMetadata → other.conclusion = stream.conclusion →
        ∀ n, run.reads client (peer.setReplies .query (.ok other :: later)) n =
          run.reads client peer n := by
  intro run serializer
  have accepted : run.accepted? peer = some stream :=
    accepted?_of_scripted prepared short undelayed scripted
  have shownRows (n : Nat) := run.reads_of_accepted client peer rfl rfl rfl accepted n
  constructor
  · refine ⟨stream.rows.map fun row => .of (run.decodeRow row), _, ?_,
      run.closingAnswer_closingAnswer stream.lastMetadata stream.conclusion, ?_⟩
    · rw [List.forall₂_map_right_iff, List.forall₂_same]
      exact fun row _ => run.rowAnswer_decodeRow row
    · intro n
      rw [shownRows n, shown, answers, List.append_assoc, List.singleton_append]
  · intro other hrows hm hc n
    let rescripted := peer.setReplies .query (.ok other :: later)
    have accepted' : run.accepted? rescripted = some other :=
      accepted?_of_scripted prepared short undelayed (peer.setReplies_same ..)
    rw [shownRows n, ← hrows, ← hm, ← hc]
    exact run.reads_of_accepted client rescripted rfl rfl rfl accepted' n

/-- A bad row and a bad signature are answered with their own faults. -/
theorem rows_answered_past_bad_row :
    let configuration : Configuration := {}
    let query : Query := { statement := "SELECT 1" }
    let stream : ChunkStream :=
      ⟨[.ok { rows := [[49], [91]] }, .ok { metadata := some { signature := [123] } },
        .ok { rows := [[50]] }], .closed⟩
    let peer := Peer.setReplies {} .query [.ok stream]
    (∃ request, query.toWire = .ok request) ∧
      (query.timeout.getD configuration.queryTimeout).hours ≤ Deadline.maxAmount ∧
      peer.delay = .zero ∧ peer.replies .query = [.ok stream] ∧
      (ofQuery configuration query).reads ⟨configuration, none⟩ peer 5 =
        [.ok (some (.number (.whole 1))), .error (.content (.json ⟨.endInList, some ⟨1, 1⟩⟩)),
          .ok (some (.number (.whole 2))),
          .error (.content (.json ⟨.endInObject, some ⟨1, 1⟩⟩)), .error .alreadyQueried] := by
  intro configuration query stream peer
  have short : (query.timeout.getD configuration.queryTimeout).hours ≤ Deadline.maxAmount := by
    decide
  refine ⟨⟨_, rfl⟩, short, rfl, rfl, ?_⟩
  obtain ⟨answers, closing, rows, last, told⟩ :=
    (rows_answered_in_order configuration query ⟨configuration, none⟩ peer rfl short rfl rfl).1
  rw [told]
  cases rows with | cons first rows =>
  cases rows with | cons second rows =>
  cases rows with | cons third rows =>
  cases rows
  obtain rfl := first.unique (.value rfl)
  obtain rfl := second.unique (.fault rfl)
  obtain rfl := third.unique (.value rfl)
  cases last with
  | ended readable =>
    obtain ⟨m, said⟩ := readable _ rfl
    cases Serializer.readPart_eq_ok_iff.mpr said.signature
  | unreadable last refused =>
    cases last
    cases QueryMetadata.ofWire_eq_error_iff.mpr refused
    rfl

end Run
end DocumentClient
